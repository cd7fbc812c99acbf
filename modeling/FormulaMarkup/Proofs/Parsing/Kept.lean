import FormulaMarkup.Proofs.Parsing.Leaves
import FormulaMarkup.Proofs.Parsing.Trace

/-!
Parsing keeps what it reads. Each token that stands for itself becomes a leaf of the tree, but for
those that the trace of the parse sets aside: arguments that are kept as they are written, delimiters,
measures, alignments, and what a decoration holds besides its scripts. This is counted with
multiplicity, from the parts of a command over single tokens to whole sources.
-/
namespace FormulaMarkup

open Node (leavesOf collapse withChildren)
open Reader (skip stripped Parted)

/-! ## Tokens that stand for themselves -/

/-- The characters that tokens with a meaning of their own are made of, and the relations that have a
negation of their own. -/
def special : List Char := "\x7b\x7d[]_^'\\=<>".toList

/-- A token of one character that has no meaning of its own. -/
def Ordinary (text : String) : Prop := ∃ c, text = String.singleton c ∧ c ∉ special

namespace Ordinary

variable {name : String}

theorem ne (ordinary : Ordinary name) {word : String}
    (start : word.toList.head?.any special.contains = true) : word ≠ name := by
  obtain ⟨c, rfl, other⟩ := ordinary
  rintro rfl
  simp [other] at start

theorem not_begins (ordinary : Ordinary name) {word : String}
    (start : word.toList.head?.any special.contains = true) : Word.begins word name = false := by
  obtain ⟨c, rfl, other⟩ := ordinary
  cases letters : word.toList with
  | nil =>
    rw [letters] at start
    cases start
  | cons first rest =>
    have differs : first ≠ c := by
      rintro rfl
      simp [letters, other] at start
    simp [Word.begins, letters, List.isPrefixOf, differs]

theorem shape? (ordinary : Ordinary name) (symbols : SymbolTable) :
    Reader.shape? symbols name = none := by
  have all : Shape.commands.all fun entry => entry.1.toList.head?.any special.contains := by
    decide +kernel
  have shapeless : Shape.of? name = none := by
    rw [Shape.of?, List.lookup_eq_none_iff]
    intro entry listed
    have other := ordinary.ne (List.all_eq_true.mp all entry listed)
    simpa using other.symm
  have plain : Word.begins "\\math" name = false := ordinary.not_begins (by decide +kernel)
  rw [Reader.shape?, shapeless, plain]
  rfl

theorem start (ordinary : Ordinary name) (symbols : SymbolTable) :
    Start.of symbols name = .command none := by
  have other (word : String) (start : word.toList.head?.any special.contains = true) :
      name ≠ word := (ordinary.ne start).symm
  have plain : Word.begins Word.environmentStart name = false :=
    ordinary.not_begins (by decide +kernel)
  unfold Start.of
  rw [plain, if_neg Bool.false_ne_true,
    if_neg (other "\\left" (by decide)), if_neg (other Word.openBrace (by decide)),
    if_neg (other "_" (by decide)), if_neg (other "^" (by decide)), if_neg (other "'" (by decide)),
    ordinary.shape? symbols]

theorem ne_ending (ordinary : Ordinary name) (header : String) : Wait.ending header ≠ name := by
  apply ordinary.ne
  have start : Word.environmentEnd.toList.head? = some '\\' := by decide
  rw [Wait.ending, String.toList_append, String.toList_append, List.append_assoc, List.head?_append,
    start, Option.some_or]
  decide

theorem negated? (ordinary : Ordinary name) (symbols : SymbolTable) :
    Reader.negated? symbols name = none := by
  unfold Reader.negated?
  split
  · exact absurd rfl (ordinary.ne (by decide))
  · exact absurd rfl (ordinary.ne (by decide))
  · exact absurd rfl (ordinary.ne (by decide))
  · split
    · rename_i rest command
      obtain ⟨c, rfl, other⟩ := ordinary
      simp only [String.toList_singleton, List.cons.injEq] at command
      rw [command.1] at other
      exact absurd (by decide) other
    · rfl

theorem ne_closing (ordinary : Ordinary name) {closing : Option String}
    (known : Wait.Closing closing) : closing ≠ some name := by
  rintro rfl
  rcases known name rfl with named | ends
  · simp only [List.mem_cons, List.not_mem_nil, or_false] at named
    rcases named with named | named | named | named
    · exact ordinary.ne (by decide) named.symm
    · exact ordinary.ne (by decide) named.symm
    · exact ordinary.ne (by decide) named.symm
    · exact ordinary.ne (by decide) named.symm
  · have other : Word.begins Word.environmentEnd name = false :=
      ordinary.not_begins (by decide +kernel)
    rw [other] at ends
    cases ends

theorem isPrime (ordinary : Ordinary name) : Script.isPrime name = false := by
  unfold Script.isPrime
  rw [List.contains_eq_any_beq, List.any_eq_false]
  intro prime listed
  have all : Script.primes.all fun word => word.toList.head?.any special.contains := by decide
  have other := ordinary.ne (List.all_eq_true.mp all prime listed)
  simpa using other.symm

end Ordinary

/-! ## What nodes are made of -/

theorem Alignment.drop_suffix {name text : String} {body cells : List Node}
    {alignment : Option String}
    (taken : (if isValid text then .ok (some text, body.drop 1)
      else if required.contains name then .error text else .ok (none, body)) =
        (.ok (alignment, cells) : Except String (Option String × List Node))) : cells <:+ body := by
  split at taken
  · cases taken
    exact List.drop_suffix 1 body
  · split at taken
    · cases taken
    · cases taken
      exact List.suffix_refl body

/-- The cells of a body are what is left of it behind the alignment. -/
theorem Alignment.take_suffix {name : String} {body cells : List Node} {alignment : Option String}
    (taken : Alignment.take name body = .ok (alignment, cells)) : cells <:+ body := by
  unfold Alignment.take at taken
  split at taken
  · split at taken
    · cases taken
    · dsimp only at taken
      split at taken
      · cases taken
        exact List.drop_suffix _ body
      · cases taken
  · exact drop_suffix taken

theorem Alignment.leavesOf_nodes (token : String) {name : String} {body cells : List Node}
    {alignment : Option String} (taken : Alignment.take name body = .ok (alignment, cells)) :
    leavesOf token body = leavesOf token (Alignment.nodes name body) + leavesOf token cells := by
  obtain ⟨front, rfl⟩ := Alignment.take_suffix taken
  unfold Alignment.nodes
  rw [taken]
  simp

/-- A sequence loses at its end the leaf that ends it, or what stands in for it. -/
theorem leavesOf_stripped {name closing : String} (other : closing ≠ name) (nodes : List Node) :
    leavesOf name nodes =
      leavesOf name (stripped closing nodes) + leavesOf name (standIn closing nodes) := by
  unfold stripped standIn
  cases found : nodes.getLast? with
  | none => simp
  | some last =>
    obtain ⟨front, rfl⟩ := List.getLast?_eq_some_iff.mp found
    by_cases closes : last.is closing = true
    · cases leaf : last.isLeaf with
      | true =>
        have token : last.token ≠ name := beq_iff_eq.mp closes ▸ other
        have none : last.leaves name = 0 := by
          rw [Node.leaves_leaf_eq (Option.isNone_iff_eq_none.mp leaf), if_neg token]
        simp [Option.filter, closes, leaf, none]
      | false => simp [Option.filter, closes, leaf]
    · simp [Option.filter, closes]

/-- A decoration is its scripts and what it holds besides them. -/
theorem leavesOf_sideParts {name : String} (ordinary : Ordinary name) (decoration : Node) :
    decoration.leaves name =
      leavesOf name (Reader.sideParts decoration).2 + leavesOf name (sideRest decoration) := by
  unfold Reader.sideParts sideRest
  cases held : decoration.children with
  | none => simp
  | some children =>
    match children with
    | [] | _ :: _ :: _ => simp
    | [only] =>
      dsimp only
      split
      · rename_i scripts
        have token : only.token ≠ name := by
          simp only [Node.is, Bool.and_eq_true, Bool.or_eq_true, beq_iff_eq] at scripts
          rcases scripts.2 with (sub | sup) | both
          · exact sub ▸ ordinary.ne (by decide)
          · exact sup ▸ ordinary.ne (by decide)
          · exact both ▸ ordinary.ne (by decide)
        have pieces := Node.leavesOf_take_add_drop name 1 only.childList
        rw [Node.leaves_held held, Node.leavesOf_cons, Node.leaves_of_name token, Node.leavesOf_nil]
        dsimp only
        omega
      · simp

/-- Between side scripts the operator stands twice. -/
theorem leaves_sideset {name : String} (ordinary : Ordinary name) (left right operator : Node) :
    left.leaves name + right.leaves name + 2 * operator.leaves name =
      (Node.sideset left right operator).leaves name +
        (leavesOf name (sideRest left) + leavesOf name (sideRest right)) := by
  have first := leavesOf_sideParts ordinary left
  have second := leavesOf_sideParts ordinary right
  have core : operator.sideOperator.leaves name = operator.leaves name := Node.leaves_congr rfl rfl
  simp only [Node.sideset, Node.leaves_withChildren, Node.leavesOf_cons, Node.leavesOf_nil, core]
  omega

theorem leavesOf_unbraced {name : String} (ordinary : Ordinary name) (nodes : List Node) :
    leavesOf name (Node.unbraced nodes) = leavesOf name nodes := by
  unfold Node.unbraced
  split
  · rename_i only
    split
    · rename_i group
      have token : only.token ≠ name := beq_iff_eq.mp group ▸ ordinary.ne (by decide)
      simp [Node.leaves_of_name token]
    · rfl
  · rfl

/-- A token that stands for itself starts a leaf. -/
theorem text_ne {name text : String} {symbols : SymbolTable} {start : Start} (ordinary : Ordinary name)
    (started : start = Start.of symbols text) (other : start ≠ .command none) : text ≠ name := by
  rintro rfl
  exact other (started.trans (ordinary.start symbols))

/-! ## What a trace accounts for -/

/-- So many leaves before are no more than those behind, but for those that a trace sets aside. A copy
does not count. -/
def Kept (name : String) (before behind : Nat) (events : List Event) : Prop :=
  before + leavesOf name (copies events) ≤ behind + leavesOf name (asides events)

namespace Kept

variable {name : String} {before mid behind start stop : Nat} {front back : List Event}

/-- One trace behind the other, where some leaves stay as they are. -/
theorem trans (first : Kept name before mid front) (second : Kept name start stop back)
    (ends : mid + stop ≤ start + behind) : Kept name before behind (front ++ back) := by
  simp only [Kept, copies_append, asides_append, Node.leavesOf_append] at *
  omega

theorem of_le (less : before ≤ behind) : Kept name before behind [] := by
  simpa [Kept] using less

end Kept

/-! ## Nodes that are made -/

section Nodes

variable {name text : String} {symbols : SymbolTable} {start : Start} {held : List (List Node)}
  (ordinary : Ordinary name) (started : start = Start.of symbols text)

include ordinary started

theorem builds_kept {node : Node} (built : Builds symbols text start held node) :
    Kept name ((if text = name then 1 else 0) + leavesOf name held.flatten) (node.leaves name)
      (start.events text held) := by
  unfold Kept
  cases built with
  | leaf => simp [Start.events]
  | @negated args negated known leaf =>
    have old : (collapse args).token ≠ name := by
      intro same
      rw [same, ordinary.negated? symbols] at known
      cases known
    have new : negated ≠ name := by
      obtain ⟨rest, start⟩ := Reader.negated?_start known
      apply ordinary.ne
      rw [start]
      change special.contains '\\' = true
      decide
    have none : leavesOf name args = 0 := by
      rw [← Node.leaves_collapse, Node.leaves_leaf_eq (Option.isNone_iff_eq_none.mp leaf), if_neg old]
    simp [text_ne ordinary started, Start.events, new, none]
  | nodes | reversed | bareArrow | style | link | squareRoot =>
    simp [text_ne ordinary started, Start.events]
  | space => simp [text_ne ordinary started, Start.events]
  | @rawText value =>
    have leaf : Node.leaves name { Node.leaf text with text := some value } =
        if text = name then 1 else 0 := Node.leaves_leaf_eq rfl
    simp [text_ne ordinary started, Start.events, leaf]
  | @labelledArrow label args =>
    have inside := leavesOf_stripped (ordinary.ne (by decide) : "]" ≠ name) label
    simp [text_ne ordinary started, Start.events]
    omega
  | @emptyIndex index args empty =>
    have inside := leavesOf_stripped (ordinary.ne (by decide) : "]" ≠ name) index
    simp [text_ne ordinary started, Start.events, empty] at inside ⊢
    omega
  | @indexedRoot index args =>
    have inside := leavesOf_stripped (ordinary.ne (by decide) : "]" ≠ name) index
    simp [text_ne ordinary started, Start.events]
    omega
  | @root index args =>
    have inside := leavesOf_stripped (ordinary.ne (by decide) : "\\of" ≠ name) index
    simp [text_ne ordinary started, Start.events]
    omega
  | @table body =>
    have inside := leavesOf_stripped (ordinary.ne (by decide) : Word.closeBrace ≠ name) body
    simpa [text_ne ordinary started, Start.events] using Nat.le_of_eq inside
  | @generalFraction thickness style args delimiter attributes =>
    have fraction : Node.leaves name { withChildren "\\genfrac" args with delimiter, attributes } =
        leavesOf name args := Node.leaves_held rfl
    simp [text_ne ordinary started, Start.events, fraction]
    omega
  | @styledFraction thickness style args switch delimiter attributes known =>
    have fraction : Node.leaves name { withChildren "\\genfrac" args with delimiter, attributes } =
        leavesOf name args := Node.leaves_held rfl
    have token : switch ≠ name := by
      unfold Reader.styleCommand? at known
      split at known <;> cases known <;> exact ordinary.ne (by decide)
    simp [text_ne ordinary started, Start.events, fraction, token]
    omega
  | @sideScripts left right operator surplus =>
    have kept := leaves_sideset ordinary left right operator
    simp [text_ne ordinary started, Start.events]
    omega
  | skew =>
    simp [text_ne ordinary started, Start.events]
    omega
  | @environment nodes body alignment closed taken =>
    have inside := leavesOf_stripped (ordinary.ne_ending text) nodes
    have cells := Alignment.leavesOf_nodes name taken
    rw [stripped, if_pos closed] at inside
    have table : ∀ token, Node.leaves name { withChildren token body with alignment } =
        leavesOf name body := fun token => Node.leaves_held rfl
    simp [text_ne ordinary started, Start.events, table]
    omega
  | @leftRight children delimiter closed =>
    have pair : Node.leaves name { withChildren "\\left" children with delimiter } =
        leavesOf name children := Node.leaves_held rfl
    simp [text_ne ordinary started, Start.events, pair]
  | @group nodes =>
    have inside := leavesOf_stripped (ordinary.ne (by decide) : Word.closeBrace ≠ name) nodes
    simpa [text_ne ordinary started, Start.events] using Nat.le_of_eq inside

theorem makes_kept {terminator : Option String} {stack : List Node} {progress : Progress}
    (made : Makes symbols terminator text stack start held progress) :
    Kept name
      ((if text = name then 1 else 0) + leavesOf name stack + leavesOf name held.flatten)
      (leavesOf name progress.stack) (start.events text held) := by
  cases made with
  | push built =>
    have inside := builds_kept ordinary started built
    rw [Node.leavesOf_cons]
    unfold Kept at *
    omega
  | negation =>
    have token : "\\not" ≠ name := ordinary.ne (by decide)
    simp [Kept, text_ne ordinary started, Start.events, token]
    omega
  | @color all nodes marker value parted =>
    simp [Kept, text_ne ordinary started, Start.events, parted.whole]
    omega
  | @table all nodes marker parted =>
    have body := leavesOf_unbraced ordinary nodes
    simp [Kept, text_ne ordinary started, Start.events, parted.whole]
    omega
  | @infixFraction fraction held all nodes marker delimiter attributes parted =>
    have node : Node.leaves name { withChildren "\\frac" [collapse stack.reverse, collapse nodes] with
        delimiter, attributes } = leavesOf name stack + leavesOf name nodes := by
      refine Eq.trans (Node.leaves_held rfl) ?_
      simp
    simp [Kept, text_ne ordinary started, Start.events, parted.whole, node]
    omega
  | @script kind args =>
    have base := Node.leavesOf_head_tail name stack
    simp [Kept, text_ne ordinary started, Start.events, Script.leaves_attach]
    omega
  | @limits kind limits operator below args above named leaf =>
    have token : limits.token ≠ name := beq_iff_eq.mp named ▸ ordinary.ne (by decide)
    have none : limits.leaves name = 0 := by
      rw [Node.leaves_leaf_eq (Option.isNone_iff_eq_none.mp leaf), if_neg token]
    simp [Kept, text_ne ordinary started, Start.events, Script.leaves_attach, above, none]
    omega
  | prime =>
    have base := Node.leavesOf_head_tail name stack
    have same := Script.leaves_addPrime ordinary.isPrime (stack.head?.getD (.braces []))
    simp [Kept, text_ne ordinary started, Start.events]
    omega

end Nodes

/-! ## Parts and tokens that are read -/

/-- How often a token is left to read. -/
def Cursor.letters (name : String) (c : Cursor) : Nat := (c.tokens.map (·.text)).count name

theorem letters_skip (name : String) {c : Cursor} {next : Token} {rest : List Token}
    (left : c.tokens = next :: rest) :
    c.letters name = (if next.text = name then 1 else 0) + (skip c next rest).letters name := by
  simp only [Cursor.letters, skip, left, List.map_cons, List.count_cons, beq_iff_eq]
  omega

/-- The tokens that have been taken, as leaves. -/
theorem letters_taken (name : String) {c after : Cursor} (behind : after.tokens <:+ c.tokens) :
    c.letters name = leavesOf name ((c.taken after).map .leaf) + after.letters name := by
  obtain ⟨taken, split⟩ := behind
  have counted (texts : List String) : leavesOf name (texts.map .leaf) = texts.count name := by
    induction texts with
    | nil => rfl
    | cons first rest ih =>
      rw [List.map_cons, Node.leavesOf_cons, Node.leaves_leaf, ih, List.count_cons, Nat.add_comm]
      simp
  rw [Trail.taken_of_split split.symm, counted]
  rw [Cursor.letters, Cursor.letters, ← split, List.map_append, List.count_append]

namespace Reader

/-- Nested readers that keep what they read. -/
structure KeepsLeaves (name : String) (nested : Nested)
    (inner : Option String → Limit → Cursor → List Event) : Prop extends Traced nested inner where
  sequence : ∀ {terminator limit c nodes after}, Wait.Closing terminator →
    nested.sequence terminator limit c = .ok (nodes, after) →
    Kept name (c.letters name) (leavesOf name nodes + after.letters name)
      (inner terminator limit c)

section Nested

variable {name : String} {nested : Nested} {inner : Option String → Limit → Cursor → List Event}
  {terminator : Option String} {c after : Cursor} (ordinary : Ordinary name)
  (keeps : KeepsLeaves name nested inner) (closing : Wait.Closing terminator)

include keeps closing

theorem optional_kept {nodes : List Node}
    (given : optional nested terminator c = .ok (nodes, after)) :
    Kept name (c.letters name) (leavesOf name nodes + after.letters name)
      (inner terminator .unbounded c) := by
  rcases optional_ok given with ⟨free, done, rfl, rfl⟩ | ⟨-, read⟩
  · rw [keeps.ended free done]
    exact .of_le (by simp)
  · exact keeps.sequence closing read

include ordinary

theorem part_kept {first : Part} {held : List Node} (known : first.Known)
    (given : part nested terminator first c = .ok (held, after)) :
    Kept name (c.letters name) (leavesOf name held + after.letters name)
      (partTrace nested inner terminator c first) := by
  cases part_ok keeps.raw given with
  | @opening text next rest left opens =>
    have other : next.text ≠ name := by
      rcases known with rfl | rfl
      · exact ordinary.ne (opens ▸ (by decide))
      · exact ordinary.ne (opens ▸ (by decide))
    rw [letters_skip name left, if_neg other]
    exact .of_le (by simp)
  | raw left | delimiter left =>
    rw [letters_skip name left, partTrace, left]
    simp [Kept]
    omega
  | noDelimiter done =>
    rw [partTrace, done]
    exact .of_le (by simp)
  | fence taken free free' behind =>
    rw [letters_taken name behind, partTrace, taken]
    simp [Kept]
    omega
  | nodes read => exact keeps.sequence closing read
  | within read => exact optional_kept keeps known read
  | rest read => exact optional_kept keeps closing read

theorem readParts_kept {parts : List Part} {held : List (List Node)}
    (known : ∀ part ∈ parts, part.Known)
    (given : readParts nested terminator parts c = .ok (held, after)) :
    Kept name (c.letters name) (leavesOf name held.flatten + after.letters name)
      (partsTrace nested inner terminator parts c) := by
  induction parts generalizing c held with
  | nil =>
    obtain ⟨rfl, rfl⟩ := pure_ok_iff.mp given
    exact .of_le (by simp)
  | cons first rest ih =>
    obtain ⟨nodes, others, mid, rfl, read, behind⟩ := readParts_cons_ok given
    have here := part_kept ordinary keeps closing (known first List.mem_cons_self) read
    have later := ih (fun part mem => known part (List.mem_cons_of_mem _ mem)) behind
    rw [partsTrace_cons read, List.flatten_cons, Node.leavesOf_append]
    exact here.trans later (by omega)

theorem token_kept {symbols : SymbolTable} {token : Token} {stack : List Node}
    {progress : Progress}
    (given : Reader.token symbols nested terminator token stack c = .ok (progress, after)) :
    Kept name ((if token.text = name then 1 else 0) + leavesOf name stack + c.letters name)
      (leavesOf name progress.stack + after.letters name)
      (tokenTrace symbols nested inner terminator token c) := by
  obtain ⟨held, read, made⟩ := token_ok given
  have inside := readParts_kept ordinary keeps closing (Start.parts_known _ _ _) read
  have outside := makes_kept ordinary rfl made
  have opened (count : Nat) : Kept name count count
      (if Start.of symbols token.text = .leftRight then [.fence (.opens token)] else []) := by
    split <;> simp [Kept]
  rw [tokenTrace_ok rfl read]
  unfold Kept at *
  have none := opened 0
  simp only [copies_append, asides_append, Node.leavesOf_append]
  omega

end Nested

section

variable {name : String} {terminator : Option String} {c after : Cursor}

theorem close_kept (ordinary : Ordinary name) (closing : Wait.Closing terminator) {limit : Limit}
    {consumed : Bool} {stack nodes : List Node}
    (given : Reader.close terminator limit consumed stack c = .ok (nodes, after)) :
    leavesOf name stack + c.letters name ≤ leavesOf name nodes + after.letters name := by
  rcases close_ok given with ⟨-, rfl, rfl⟩ | ⟨_, marker, rest, -, rfl, marks, -, rfl, rfl⟩ |
    ⟨_, -, -, -, rfl, rfl⟩
  · simp
  · obtain ⟨leaf, named⟩ := Node.marks_iff.mp marks
    have token : marker.token ≠ name := fun same => ordinary.ne_closing closing (same ▸ named.symm)
    have none : marker.leaves name = 0 := by rw [Node.leaves_leaf_eq leaf, if_neg token]
    simp [none, Cursor.letters]
  · simp

theorem marker_kept {next : Token} {rest : List Token} {node : Node}
    (given : marker next.text (skip c next rest) = .ok (node, after)) :
    Kept name ((if next.text = name then 1 else 0) + (skip c next rest).letters name)
      (node.leaves name + after.letters name) (markerTrace next rest) := by
  obtain ⟨delimiter, rfl, moved⟩ := marker_ok given
  have leaf : Node.leaves name { Node.leaf next.text with delimiter } =
      if next.text = name then 1 else 0 := Node.leaves_leaf_eq rfl
  rw [leaf, markerTrace]
  rcases moved with ⟨other, rfl⟩ | ⟨right, done, rfl⟩ | ⟨text, behind, right, left, rfl⟩
  · rw [if_neg other]
    exact .of_le (Nat.le_refl _)
  · obtain rfl : rest = [] := done
    rw [if_pos right]
    simp [Kept]
  · have here := letters_skip name left
    obtain rfl : rest = text :: behind := left
    rw [here, if_pos right]
    simp [Kept]
    omega

/-- A sequence keeps what is on its stack and what it reads. -/
theorem sequence_kept (ordinary : Ordinary name) {symbols : SymbolTable} {limit : Limit}
    {budget : Nat} {consumed : Bool} {stack nodes : List Node} (closing : Wait.Closing terminator)
    (given : sequence symbols terminator limit budget consumed stack c = .ok (nodes, after)) :
    Kept name (leavesOf name stack + c.letters name) (leavesOf name nodes + after.letters name)
      (trace symbols terminator limit budget stack c) := by
  induction budget generalizing terminator limit consumed stack c nodes after with
  | zero => cases given
  | succ budget ih =>
    have keeps : KeepsLeaves name (nestedAt symbols budget) (innerTrace symbols budget) := by
      refine ⟨traced_nestedAt symbols budget, fun closing read => ?_⟩
      have inside := ih closing read
      rwa [Node.leavesOf_nil, Nat.zero_add] at inside
    cases sequence_ok given with
    | owed owes unbounded made left =>
      subst made left
      rw [trace_owed owes]
      refine .of_le ?_
      simp only [Node.leavesOf_reverse, Node.leavesOf_cons, Cursor.letters]
      omega
    | ended free done closed =>
      rw [trace_ended free done]
      exact .of_le (close_kept ordinary closing closed)
    | @closed next rest node free left closes unbounded marked made =>
      subst made unbounded
      have here := @marker_kept name _ _ _ _ _ marked
      rw [letters_skip name left, trace_closed free left closes]
      simp only [Kept, Node.leavesOf_reverse, Node.leavesOf_cons] at here ⊢
      omega
    | @last next rest progress mid free left other read full closed =>
      have here := token_kept ordinary keeps closing read
      have behind := close_kept ordinary closing closed
      rw [letters_skip name left, trace_last free left other read full]
      unfold Kept at here ⊢
      omega
    | @more next rest progress mid free left other read space again =>
      have here := token_kept ordinary keeps closing read
      rw [letters_skip name left, trace_more free left other read space, Nat.add_left_comm,
        ← Nat.add_assoc]
      exact here.trans (ih closing again) (by omega)

end

end Reader

namespace Formula

/-- Parsing keeps each token that stands for itself. Counted with multiplicity, such a token is a leaf
of the tree or is set aside, and a leaf that is copied counts once. -/
theorem ofTokens?_keeps {symbols : SymbolTable} {tokens : List Token} {stop : Nat}
    {nodes : List Node} {c : Char} (ordinary : c ∉ special)
    (read : ofTokens? symbols tokens stop = .ok nodes) :
    (tokens.map (·.text)).count (String.singleton c) +
        leavesOf (String.singleton c) (copies (trace symbols tokens stop)) ≤
      leavesOf (String.singleton c) nodes +
        leavesOf (String.singleton c) (asides (trace symbols tokens stop)) := by
  rcases ofTokens?_ok read with ⟨rfl, rfl⟩ | ⟨after, given⟩
  · simp [trace, Reader.trace]
  · have kept := Reader.sequence_kept ⟨c, rfl, ordinary⟩ Wait.closing_none given
    have done := (ofTokens?_whole given).2
    simpa [Kept, Cursor.letters, done, trace] using kept

/-- The first of two letters is the color of the second one. -/
theorem ofTokens?_keeps_color :
    let tokens := Source.tokens .known "\\color aa"
    let name := String.singleton 'a'
    ∃ nodes, ofTokens? .known tokens 9 = .ok nodes ∧
      (tokens.map (·.text)).count name + leavesOf name (copies (trace .known tokens 9)) ≤
        leavesOf name nodes + leavesOf name (asides (trace .known tokens 9)) := by
  have given : ofTokens? .known (Source.tokens .known "\\color aa") 9 =
      .ok [(withChildren "\\color" [.leaf "a"]).setAttribute "mathcolor" "a"] := by
    decide +kernel
  exact ⟨_, given, ofTokens?_keeps (by decide : 'a' ∉ special) given⟩

/-- A letter that decorates an operator without being its script is no leaf of the tree. -/
theorem decoration_drops_letter :
    let tokens := Source.tokens .known "\\sideset\x7ba\x7d\x7b\x7d\\sum"
    ∃ nodes, ofTokens? .known tokens 17 = .ok nodes ∧ (tokens.map (·.text)).count "a" = 1 ∧
      leavesOf "a" nodes = 0 ∧
      trace .known tokens 17 =
        [.copied (.leaf "\\sum"), .setAside .decoration (.braces [.leaf "a"]),
          .setAside .decoration (.braces [])] := by
  have given : ofTokens? .known (Source.tokens .known "\\sideset\x7ba\x7d\x7b\x7d\\sum") 17 =
      .ok [Node.sideset (.braces [.leaf "a"]) (.braces []) (.leaf "\\sum")] := by
    decide +kernel
  exact ⟨_, given, by decide +kernel, by decide +kernel, by decide +kernel⟩

end Formula

end FormulaMarkup

import FormulaMarkup.Proofs.Parsing.FenceOrder
import FormulaMarkup.Proofs.Parsing.Indices
import FormulaMarkup.Proofs.Parsing.NamedLeaves

/-!
Stretching delimiters match. In what is parsed each `\left` has a `\right` of its own behind it, and
the pairs are nested, unless an environment has the name that the node of a `\right` has. What is
followed through the readers is where a sequence stands in the pairs around it.
-/
namespace FormulaMarkup

open Wait
open Node (withChildren)
open Reader (skip Parted)

/-! ## Matched pairs -/

/-- Each `\left` has a `\right` behind it, and the pairs are nested. -/
inductive Matched : List Fence → Prop where
  | nil : Matched []
  | pair {left right : Token} {inner rest : List Fence} (inside : Matched inner)
      (behind : Matched rest) : Matched (.opens left :: (inner ++ .closes right :: rest))

theorem Matched.append {front back : List Fence} (first : Matched front) (second : Matched back) :
    Matched (front ++ back) := by
  induction first with
  | nil => exact second
  | pair inside _ _ ih =>
    rw [List.cons_append, List.append_assoc, List.cons_append]
    exact .pair inside ih

theorem Matched.enclose {left right : Token} {inner : List Fence} (inside : Matched inner) :
    Matched (.opens left :: (inner ++ [.closes right])) :=
  .pair inside .nil

theorem Matched.closes {pairs : List Fence} {left : Token} (matched : Matched pairs)
    (opened : .opens left ∈ pairs) : ∃ right, .closes right ∈ pairs := by
  cases matched with
  | nil => cases opened
  | @pair _ right inner rest => exact ⟨right, by simp⟩

/-! ## Where a sequence stands in the pairs -/

/-- The pairs of a sequence that has taken its terminator. -/
def Closed (terminator : Option String) (pairs : List Fence) : Prop :=
  if terminator = some "\\right" then
    ∃ inner right, Matched inner ∧ pairs = inner ++ [.closes right]
  else Matched pairs

/-- A sequence is open, or its terminator is owed to it. -/
def Stands (terminator : Option String) (c : Cursor) (pairs : List Fence) : Prop :=
  c.pending = none ∧ Matched pairs ∨
    ∃ marker, c.pending = some marker ∧ marker.marks terminator = true ∧ Closed terminator pairs

/-- A sequence without a limit has been read. -/
def Complete (terminator : Option String) (nodes : List Node) (c : Cursor) (pairs : List Fence) :
    Prop :=
  c.pending = none ∧ (Unmarked terminator nodes ∧ Matched pairs ∨
    ∃ front marker, nodes = front ++ [marker] ∧ Unmarked terminator front ∧
      marker.marks terminator = true ∧ Closed terminator pairs)

/-- What holds of the pairs behind a sequence. -/
def Leaves (terminator : Option String) (nodes : List Node) (c : Cursor) (pairs : List Fence) :
    Limit → Prop
  | .unbounded => Complete terminator nodes c pairs
  | .nodes _ => Unmarked terminator nodes ∧ Stands terminator c pairs

/-- What holds of the pairs behind a token. -/
def Goes (terminator : Option String) (progress : Progress) (c : Cursor) (pairs : List Fence) : Prop :=
  if progress.finished then Complete terminator progress.stack.reverse c pairs
  else Unmarked terminator progress.stack ∧ Stands terminator c pairs

section Pairs

variable {terminator : Option String} {c : Cursor} {nodes : List Node} {pairs before : List Fence}

theorem Stands.matched (stands : Stands terminator c pairs) (free : c.pending = none) :
    Matched pairs := by
  rcases stands with ⟨-, matched⟩ | ⟨marker, owed, -⟩
  · exact matched
  · rw [free] at owed
    cases owed

/-- Only a sequence up to a `\right` takes half of a pair. -/
theorem Complete.matched (complete : Complete terminator nodes c pairs)
    (other : terminator ≠ some "\\right") : Matched pairs := by
  rcases complete.2 with ⟨-, matched⟩ | ⟨_, _, -, -, -, closed⟩
  · exact matched
  · rwa [Closed, if_neg other] at closed

theorem Complete.prepend {front : List Node} (unmarked : Unmarked terminator front)
    (complete : Complete terminator nodes c pairs) : Complete terminator (front ++ nodes) c pairs := by
  obtain ⟨free, ⟨all, matched⟩ | ⟨middle, marker, rfl, all, marks, closed⟩⟩ := complete
  · exact ⟨free, .inl ⟨unmarked_append.mpr ⟨unmarked, all⟩, matched⟩⟩
  · refine ⟨free, .inr ⟨front ++ middle, marker, ?_, unmarked_append.mpr ⟨unmarked, all⟩, marks, closed⟩⟩
    rw [List.append_assoc]

/-- What ends all that follows, behind the rest of it. -/
theorem Complete.parted {all : List Node} {marker : Option Node}
    (complete : Complete terminator all c pairs) (parted : Parted terminator all nodes marker) :
    Complete terminator marker.toList c pairs := by
  obtain ⟨free, ⟨unmarked, matched⟩ | ⟨front, last, whole, -, marks, closed⟩⟩ := complete
  · rw [parted.whole] at unmarked
    exact ⟨free, .inl ⟨(unmarked_append.mp unmarked).2, matched⟩⟩
  · have split := parted.whole.symm.trans whole
    cases marker with
    | none =>
      rw [Option.toList_none, List.append_nil] at split
      have other := parted.open' rfl last (by rw [split]; exact List.getLast?_concat)
      exact absurd (Node.marks_iff.mp marks).2 other
    | some node =>
      obtain ⟨-, same⟩ := List.append_inj' split rfl
      cases same
      exact ⟨free, .inr ⟨[], last, rfl, unmarked_nil, marks, closed⟩⟩

/-- What follows a node up to the end of the sequence is all that follows it. -/
theorem goes_finished {all stack : List Node} {node : Node} {marker : Option Node}
    (complete : Complete terminator all c pairs) (parted : Parted terminator all nodes marker)
    (other : node.marks terminator = false) (unmarked : Unmarked terminator stack) :
    Goes terminator ⟨marker.toList ++ node :: stack, true⟩ c pairs := by
  have front : Unmarked terminator (stack.reverse ++ [node]) := by
    refine unmarked_append.mpr ⟨?_, unmarked_cons.mpr ⟨other, unmarked_nil⟩⟩
    exact fun node mem => unmarked node (List.mem_reverse.mp mem)
  have whole := (complete.parted parted).prepend front
  cases marker with
  | none => simpa [Goes] using whole
  | some marker => simpa [Goes] using whole

end Pairs

/-! ## Parts that nothing is owed in front of -/

/-- A part that is read where nothing is owed, and that has whole pairs only. -/
def Part.Early : Part → Prop
  | .nodes _ | .rest => False
  | .within closing => closing ≠ "\\right"
  | _ => True

namespace Reader

/-- Nested readers that keep pairs matched. -/
structure KeepsPairs (nested : Nested) (inner : Option String → Limit → Cursor → List Event) :
    Prop extends Traced nested inner where
  meets : KeepsNested (· ≠ rightEnvironment) RightLeaf nested
  sequence : ∀ {terminator limit c nodes after before}, Closing terminator →
    c.Meets (· ≠ rightEnvironment) RightLeaf → Stands terminator c before →
    nested.sequence terminator limit c = .ok (nodes, after) →
    Leaves terminator nodes after (before ++ fences (inner terminator limit c)) limit

section Nested

variable {nested : Nested} {inner : Option String → Limit → Cursor → List Event}
  {terminator : Option String} {c after : Cursor} {before : List Fence}
  (keeps : KeepsPairs nested inner)

include keeps

theorem optional_complete {nodes : List Node} (closing : Closing terminator)
    (here : c.Meets (· ≠ rightEnvironment) RightLeaf) (stands : Stands terminator c before)
    (given : optional nested terminator c = .ok (nodes, after)) :
    Complete terminator nodes after (before ++ fences (inner terminator .unbounded c)) := by
  rcases optional_ok given with ⟨free, done, rfl, rfl⟩ | ⟨-, read⟩
  · rw [keeps.ended free done, fences_nil, List.append_nil]
    exact ⟨free, .inl ⟨unmarked_nil, stands.matched free⟩⟩
  · exact keeps.sequence closing here stands read

theorem part_matched {first : Part} {held : List Node} (early : first.Early) (known : first.Known)
    (here : c.Meets (· ≠ rightEnvironment) RightLeaf) (free : c.pending = none)
    (given : part nested terminator first c = .ok (held, after)) :
    after.pending = none ∧ Matched (fences (partTrace nested inner terminator c first)) := by
  cases part_ok keeps.raw given with
  | opening => exact ⟨free, .nil⟩
  | raw | noDelimiter | delimiter =>
    rw [partTrace, fences_setAsideAll]
    exact ⟨free, .nil⟩
  | fence taken _ free' =>
    rw [partTrace, taken, fences_setAsideAll]
    exact ⟨free', .nil⟩
  | nodes | rest => exact early.elim
  | within read =>
    have complete := optional_complete keeps known here (.inl ⟨free, .nil⟩) read
    exact ⟨complete.1, complete.matched fun same => early (Option.some.inj same)⟩

theorem early_matched {parts : List Part} {held : List (List Node)} (closing : Closing terminator)
    (early : ∀ part ∈ parts, part.Early) (known : ∀ part ∈ parts, part.Known)
    (here : c.Meets (· ≠ rightEnvironment) RightLeaf) (free : c.pending = none)
    (given : readParts nested terminator parts c = .ok (held, after)) :
    after.pending = none ∧ Matched (fences (partsTrace nested inner terminator parts c)) := by
  induction parts generalizing c held with
  | nil =>
    obtain ⟨rfl, rfl⟩ := pure_ok_iff.mp given
    exact ⟨free, .nil⟩
  | cons first rest ih =>
    obtain ⟨nodes, others, mid, rfl, read, behind⟩ := readParts_cons_ok given
    obtain ⟨early', earlier⟩ := List.forall_mem_cons.mp early
    obtain ⟨known', knower⟩ := List.forall_mem_cons.mp known
    obtain ⟨free', matched⟩ := part_matched keeps early' known' here free read
    have here' := (part_meets keeps.meets closing known' here read).2
    obtain ⟨free'', matched'⟩ := ih earlier knower here' free' behind
    rw [partsTrace_cons read, fences_append]
    exact ⟨free'', matched.append matched'⟩

/-- Nodes of the sequence around, in front of which something may be owed. -/
theorem nodes_stand (counts : List Nat) {held : List (List Node)} (closing : Closing terminator)
    (here : c.Meets (· ≠ rightEnvironment) RightLeaf) (stands : Stands terminator c before)
    (given : readParts nested terminator (counts.map .nodes) c = .ok (held, after)) :
    (∀ nodes ∈ held, Unmarked terminator nodes) ∧
      Stands terminator after
        (before ++ fences (partsTrace nested inner terminator (counts.map .nodes) c)) := by
  induction counts generalizing c held before with
  | nil =>
    obtain ⟨rfl, rfl⟩ := pure_ok_iff.mp given
    refine ⟨List.forall_mem_nil _, ?_⟩
    simpa [partsTrace] using stands
  | cons count rest ih =>
    rw [List.map_cons] at given ⊢
    obtain ⟨nodes, others, mid, rfl, read, behind⟩ := readParts_cons_ok given
    obtain ⟨unmarked, stands'⟩ := keeps.sequence closing here stands read
    have known : (Part.nodes count).Known := trivial
    have here' := (part_meets keeps.meets closing known here read).2
    obtain ⟨unmarked', last⟩ := ih here' stands' behind
    rw [partsTrace_cons read, fences_append, ← List.append_assoc]
    exact ⟨List.forall_mem_cons.mpr ⟨unmarked, unmarked'⟩, last⟩

variable (early : List Part) (counts : List Nat) {held : List (List Node)}
  (closing : Closing terminator) (fits : ∀ part ∈ early, part.Early ∧ part.Known)
  (here : c.Meets (· ≠ rightEnvironment) RightLeaf) (free : c.pending = none)
  (matched : Matched before)

include closing fits here free matched

/-- Parts that end with nodes. -/
theorem parts_stand
    (given : readParts nested terminator (early ++ counts.map .nodes) c = .ok (held, after)) :
    (∃ first last, held = first ++ last ∧ first.length = early.length ∧
      ∀ nodes ∈ last, Unmarked terminator nodes) ∧
    Stands terminator after
      (before ++ fences (partsTrace nested inner terminator (early ++ counts.map .nodes) c)) := by
  obtain ⟨first, last, mid, rfl, length, read, behind⟩ := readParts_append_ok given
  have known : ∀ part ∈ early, part.Known := fun part mem => (fits part mem).2
  obtain ⟨free', matched'⟩ :=
    early_matched keeps closing (fun part mem => (fits part mem).1) known here free read
  have here' := (readParts_meets keeps.meets closing known here read).2
  obtain ⟨unmarked, stands⟩ :=
    nodes_stand keeps counts closing here' (.inl ⟨free', matched.append matched'⟩) behind
  rw [partsTrace_append read, fences_append, ← List.append_assoc]
  exact ⟨⟨first, last, rfl, length, unmarked⟩, stands⟩

/-- Parts that end with all that follows. -/
theorem parts_complete (first : List (List Node)) (all : List Node)
    (given : readParts nested terminator (early ++ counts.map .nodes ++ [.rest]) c =
      .ok (first ++ [all], after)) :
    Complete terminator all after
      (before ++
        fences (partsTrace nested inner terminator (early ++ counts.map .nodes ++ [.rest]) c)) := by
  obtain ⟨front, last, mid, split, -, read, behind⟩ := readParts_append_ok given
  have known : ∀ part ∈ early ++ counts.map Part.nodes, part.Known := by
    intro part mem
    rcases List.mem_append.mp mem with mem | mem
    · exact (fits part mem).2
    · obtain ⟨count, -, rfl⟩ := List.mem_map.mp mem
      trivial
  have stands := (parts_stand keeps early counts closing fits here free matched read).2
  have here' := (readParts_meets keeps.meets closing known here read).2
  obtain ⟨held, others, between, rfl, rest, done⟩ := readParts_cons_ok behind
  obtain ⟨rfl, rfl⟩ := pure_ok_iff.mp done
  obtain ⟨-, same⟩ := List.append_inj' split rfl
  cases same
  have complete := optional_complete keeps closing here' stands rest
  rw [partsTrace_append read, partsTrace_cons rest, fences_append, ← List.append_assoc]
  simpa [partsTrace, partTrace] using complete

end Nested

end Reader

/-! ## What tokens start -/

/-- The parts of what a token starts that is no pair of delimiters, and that goes on behind it. -/
theorem Start.parts_early {symbols : SymbolTable} {text : String} {start : Start}
    {held : List (List Node)} {node : Node} (next : Option String) (other : start ≠ .leftRight)
    (built : Builds symbols text start held node)
    (length : held.length = (start.parts text next).length) :
    ∃ (early : List Part) (counts : List Nat),
      start.parts text next = early ++ counts.map Part.nodes ∧ ∀ part ∈ early, part.Early := by
  have labelled : ∃ (early : List Part) (counts : List Nat),
      (if next = some "[" then [.opening "[", .within "]", .nodes 1] else [.nodes 1]) =
        early ++ counts.map Part.nodes ∧ ∀ part ∈ early, part.Early := by
    split
    · exact ⟨[.opening "[", .within "]"], [1], rfl, by simp [Part.Early]⟩
    · exact ⟨[], [1], rfl, List.forall_mem_nil _⟩
  cases built with
  | leaf => exact ⟨[], [], rfl, List.forall_mem_nil _⟩
  | @nodes count => exact ⟨[], [count], rfl, List.forall_mem_nil _⟩
  | reversed => exact ⟨[], [2], rfl, List.forall_mem_nil _⟩
  | negated | space => exact ⟨[], [1], rfl, List.forall_mem_nil _⟩
  | bareArrow | labelledArrow | squareRoot | emptyIndex | indexedRoot => exact labelled
  | style | link => exact ⟨[.raw], [1], rfl, by simp [Part.Early]⟩
  | rawText => exact ⟨[.raw], [], rfl, by simp [Part.Early]⟩
  | root => exact ⟨[.within "\\of"], [1], rfl, by simp [Part.Early]⟩
  | table =>
    simp only [parts, shapeParts] at length ⊢
    split
    · exact ⟨[.opening Word.openBrace, .within Word.closeBrace], [], rfl, by simp [Part.Early]; decide⟩
    · rename_i unbraced
      rw [if_neg unbraced] at length
      cases length
  | generalFraction | styledFraction =>
    exact ⟨[.fence, .fence], [1, 1, 2], rfl, by simp [Part.Early]⟩
  | sideScripts => exact ⟨[], [3], rfl, List.forall_mem_nil _⟩
  | skew => exact ⟨[], [2], rfl, List.forall_mem_nil _⟩
  | environment =>
    exact ⟨[.within (ending text)], [], rfl, by simp [Part.Early, ending_ne_right]⟩
  | leftRight => exact absurd rfl other
  | group => exact ⟨[.within Word.closeBrace], [], rfl, by simp [Part.Early]; decide⟩

/-- A node that is built is no leaf for the terminator, if the argument of a style is none. -/
theorem builds_unmarked {symbols : SymbolTable} {text : String} {start : Start}
    {held : List (List Node)} {node : Node} {terminator : Option String} (known : Closing terminator)
    (other : some text ≠ terminator)
    (styled : ∀ args, start = .command (some .style) → held = [[], args] → Unmarked terminator args)
    (built : Builds symbols text start held node) : node.marks terminator = false := by
  cases built with
  | leaf => exact Node.marks_leaf other
  | negated negation =>
    obtain ⟨rest, start⟩ := Reader.negated?_start negation
    exact Node.marks_leaf (known.ne_of_start start)
  | space | rawText => simp [Node.marks, Node.setAttribute, Node.leaf, other]
  | @style args value =>
    exact Node.marks_collapse (styled args rfl rfl)
  | _ => rfl

namespace Reader

section Tokens

variable {symbols : SymbolTable} {nested : Nested}
  {inner : Option String → Limit → Cursor → List Event} {terminator : Option String}
  {c after : Cursor} {before : List Fence} {text : String} {held : List (List Node)}
  (keeps : KeepsPairs nested inner) (closing : Closing terminator)
  (here : c.Meets (· ≠ rightEnvironment) RightLeaf) (free : c.pending = none)

include keeps closing here free

/-- A pair of delimiters ends with its own `\right`, whose leaf is the last child. -/
theorem leftRight_matched (left : Token) {node : Node}
    (built : Builds symbols text .leftRight held node)
    (read : readParts nested terminator (Start.leftRight.parts text c.following) c =
      .ok (held, after)) :
    after.pending = none ∧ Matched (.opens left ::
      fences (partsTrace nested inner terminator (Start.leftRight.parts text c.following) c)) := by
  cases built with
  | @leftRight children delimiter closed =>
    rw [Start.parts] at read ⊢
    obtain ⟨_, others, mid, same, taken, behind⟩ := readParts_cons_ok read
    obtain ⟨all, _, last, rfl, given, done⟩ := readParts_cons_ok behind
    obtain ⟨rfl, rfl⟩ := pure_ok_iff.mp done
    cases same
    have right : Closing (some "\\right") := closing_of_mem (by decide)
    have fits : Part.delimiter.Early ∧ Part.delimiter.Known := ⟨trivial, trivial⟩
    obtain ⟨free', -⟩ := part_matched keeps fits.1 fits.2 here free taken
    have here' := (part_meets keeps.meets closing fits.2 here taken).2
    have complete := optional_complete keeps right here' (.inl ⟨free', .nil⟩) given
    have leaves := (optional_meets keeps.meets right here' given).1
    obtain ⟨marker, ends, named⟩ := (Option.any_eq_true _ _).mp closed
    have leaf : marker.children = none :=
      leaves marker (List.mem_of_getLast? ends) (beq_iff_eq.mp named)
    have marks : marker.marks (some "\\right") = true :=
      Node.marks_iff.mpr ⟨by simp [leaf], congrArg some (beq_iff_eq.mp named)⟩
    refine ⟨complete.1, ?_⟩
    rw [partsTrace_cons taken, partsTrace_cons given, fences_append, fences_append]
    rcases complete.2 with ⟨unmarked, -⟩ | ⟨_, _, -, -, -, shut⟩
    · rw [unmarked marker (List.mem_of_getLast? ends)] at marks
      cases marks
    · rw [Closed, if_pos rfl] at shut
      obtain ⟨inside, close, matched, pairs⟩ := shut
      rw [List.nil_append] at pairs
      rw [partTrace, partTrace, pairs, fences_setAsideAll, partsTrace, fences_nil, List.nil_append,
        List.append_nil]
      exact matched.enclose

theorem token_goes {token : Token} {stack : List Node} {progress : Progress}
    (other : some token.text ≠ terminator) (unmarked : Unmarked terminator stack)
    (matched : Matched before)
    (given : Reader.token symbols nested terminator token stack c = .ok (progress, after)) :
    Goes terminator progress after
      (before ++ fences (tokenTrace symbols nested inner terminator token c)) := by
  obtain ⟨held, read, made⟩ := token_ok given
  have fits := Start.parts_known (Start.of symbols token.text) token.text c.following
  rw [tokenTrace_ok rfl read, fences_append, fences_append, fences_events, List.append_nil]
  generalize Start.of symbols token.text = start at *
  have below : Unmarked terminator stack.tail :=
    fun node mem => unmarked node (List.mem_of_mem_tail mem)
  by_cases pair : start = .leftRight
  · subst pair
    cases made with
    | push built =>
      obtain ⟨free', pairs⟩ := leftRight_matched keeps closing here free token built read
      refine ⟨unmarked_cons.mpr ⟨?_, unmarked⟩, .inl ⟨free', matched.append pairs⟩⟩
      cases built with
      | leftRight => rfl
  rw [if_neg pair, fences_nil, List.nil_append]
  have stands : Stands terminator c before := .inl ⟨free, matched⟩
  have raw : ∀ part ∈ [Part.raw], part.Early ∧ part.Known := by simp [Part.Early, Part.Known]
  cases made with
  | @push start held node built =>
    have styled : ∀ args, start = .command (some .style) → held = [[], args] →
        Unmarked terminator args := by
      rintro args rfl rfl
      obtain ⟨⟨first, last, split, length, all⟩, -⟩ :=
        parts_stand keeps [.raw] [1] closing raw here free matched read
      have both : [[]] ++ [args] = first ++ last := split
      obtain ⟨-, rfl⟩ := List.append_inj both length.symm
      exact all args (List.mem_singleton_self _)
    obtain ⟨early, counts, split, early'⟩ := Start.parts_early _ pair built (readParts_length read)
    rw [split] at read fits ⊢
    have fits' : ∀ part ∈ early, part.Early ∧ part.Known :=
      fun part mem => ⟨early' part mem, fits part (List.mem_append_left _ mem)⟩
    exact ⟨unmarked_cons.mpr ⟨builds_unmarked closing other styled built, unmarked⟩,
      (parts_stand keeps early counts closing fits' here free matched read).2⟩
  | @negation args =>
    obtain ⟨all, stands'⟩ := nodes_stand keeps [1] closing here stands read
    have collapsed := Node.marks_collapse (all args (List.mem_singleton_self _))
    have leaf : some "\\not" ≠ terminator :=
      closing.ne_of_start (show "\\not".toList = '\\' :: 'n' :: "ot".toList by decide)
    exact ⟨unmarked_cons.mpr ⟨collapsed, unmarked_cons.mpr ⟨Node.marks_leaf leaf, unmarked⟩⟩, stands'⟩
  | @color all nodes marker value parted =>
    have complete := parts_complete keeps [.raw] [] closing raw here free matched [[]] all read
    exact goes_finished complete parted rfl unmarked
  | @table all nodes marker parted =>
    have length := readParts_length read
    have rest : Start.parts token.text c.following (.command (some .table)) = [.rest] := by
      rw [Start.parts, Start.shapeParts] at length ⊢
      split
      · rename_i follows
        rw [if_pos follows] at length
        cases length
      · rfl
    rw [rest] at read ⊢
    have complete :=
      parts_complete keeps [] [] closing (List.forall_mem_nil _) here free matched [] all read
    exact goes_finished complete parted rfl unmarked
  | @infixFraction fraction held all nodes marker delimiter attributes parted =>
    have shaped : Start.parts token.text c.following (.command (some (.infixFraction fraction))) =
        (if fraction.readsFences then [.fence, .fence] else []) ++
          (if fraction.bar = .argument then [1] else []).map Part.nodes ++ [.rest] := by
      rw [Start.parts, Start.shapeParts]
      congr 2
      split <;> rfl
    have early : ∀ part ∈ if fraction.readsFences then [Part.fence, .fence] else [],
        part.Early ∧ part.Known := by
      split <;> simp [Part.Early, Part.Known]
    rw [shaped] at read ⊢
    have complete := parts_complete keeps _ _ closing early here free matched held all read
    exact goes_finished complete parted rfl unmarked_nil
  | script =>
    obtain ⟨-, stands'⟩ := nodes_stand keeps [1] closing here stands read
    exact ⟨unmarked_cons.mpr ⟨Script.marks_attach .., below⟩, stands'⟩
  | limits above =>
    subst above
    obtain ⟨-, stands'⟩ := nodes_stand keeps [1] closing here stands read
    exact ⟨unmarked_cons.mpr ⟨Script.marks_attach .., (unmarked_cons.mp below).2⟩, stands'⟩
  | prime =>
    obtain ⟨-, rfl⟩ := pure_ok_iff.mp read
    refine ⟨unmarked_cons.mpr ⟨Script.marks_addPrime .., below⟩, ?_⟩
    simpa [Start.parts, partsTrace] using stands

end Tokens

section

variable {terminator : Option String} {limit : Limit} {c after : Cursor} {pairs : List Fence}
  {consumed : Bool} {stack nodes : List Node}

/-- A sequence ends that no terminator has ended. -/
theorem close_stands {count : Nat} (unmarked : Unmarked terminator stack)
    (stands : Stands terminator c pairs)
    (given : Reader.close terminator (.nodes count) consumed stack c = .ok (nodes, after)) :
    Unmarked terminator nodes ∧ Stands terminator after pairs := by
  have back : Unmarked terminator stack.reverse :=
    fun node mem => unmarked node (List.mem_reverse.mp mem)
  rcases close_ok given with ⟨⟨⟩, -⟩ | ⟨_, marker, rest, -, rfl, marks, -⟩ | ⟨_, -, -, -, rfl, rfl⟩
  · rw [(unmarked_cons.mp unmarked).1] at marks
    cases marks
  · exact ⟨back, stands⟩

/-- A sequence ends that is complete. With a limit, the leaf for the terminator is owed. -/
theorem close_leaves (complete : Complete terminator stack.reverse c pairs)
    (given : Reader.close terminator limit consumed stack c = .ok (nodes, after)) :
    Leaves terminator nodes after pairs limit := by
  rcases close_ok given with ⟨rfl, rfl, rfl⟩ | ⟨count, marker, rest, rfl, rfl, marks, -, rfl, rfl⟩ |
    ⟨count, rfl, first, -, rfl, rfl⟩
  · exact complete
  · obtain ⟨-, ⟨unmarked, -⟩ | ⟨front, last, split, unmarked, -, closed⟩⟩ := complete
    · rw [unmarked marker (by simp)] at marks
      cases marks
    · rw [List.reverse_cons] at split
      obtain ⟨rfl, same⟩ := List.append_inj' split rfl
      cases same
      exact ⟨unmarked, .inr ⟨marker, rfl, marks, closed⟩⟩
  · obtain ⟨free, ⟨unmarked, matched⟩ | ⟨front, last, split, -, marks, -⟩⟩ := complete
    · exact ⟨unmarked, .inl ⟨free, matched⟩⟩
    · have head : stack.head? = some last := by
        rw [← List.reverse_reverse stack, split, List.reverse_append]
        rfl
      rw [first last head] at marks
      cases marks

theorem marker_complete {next : Token} {rest : List Token} {node : Node} (free : c.pending = none)
    (matched : Matched pairs) (unmarked : Unmarked terminator stack)
    (closes : some next.text = terminator)
    (given : marker next.text (skip c next rest) = .ok (node, after)) :
    Complete terminator (node :: stack).reverse after (pairs ++ fences (markerTrace next rest)) := by
  obtain ⟨delimiter, rfl, moved⟩ := marker_ok given
  have free' : after.pending = none := by
    rcases moved with ⟨-, rfl⟩ | ⟨-, -, rfl⟩ | ⟨_, _, -, -, rfl⟩ <;> exact free
  have closed : Closed terminator (pairs ++ fences (markerTrace next rest)) := by
    unfold Closed markerTrace
    by_cases right : next.text = "\\right"
    · rw [if_pos (right ▸ closes.symm), if_pos right, fences_fence, fences_setAsideAll]
      exact ⟨pairs, next, matched, rfl⟩
    · rw [if_neg fun same => right (Option.some.inj (closes.trans same)), if_neg right, fences_nil,
        List.append_nil]
      exact matched
  refine ⟨free', .inr ⟨stack.reverse, _, List.reverse_cons, ?_, Node.marks_iff.mpr ⟨rfl, closes⟩,
    closed⟩⟩
  exact fun node mem => unmarked node (List.mem_reverse.mp mem)

/-- A sequence of tokens of which none starts an environment named for a closing delimiter. It takes
whole pairs, but for its own terminator. -/
theorem sequence_leaves {symbols : SymbolTable} {budget : Nat} {before : List Fence}
    (closing : Closing terminator) (unmarked : Unmarked terminator stack)
    (here : c.Meets (· ≠ rightEnvironment) RightLeaf) (stands : Stands terminator c before)
    (given : sequence symbols terminator limit budget consumed stack c = .ok (nodes, after)) :
    Leaves terminator nodes after (before ++ fences (trace symbols terminator limit budget stack c))
      limit := by
  induction budget generalizing terminator limit consumed stack c nodes after before with
  | zero => cases given
  | succ budget ih =>
    have meets : KeepsNested (· ≠ rightEnvironment) RightLeaf (nestedAt symbols budget) :=
      ⟨rfl, fun closing => sequence_meets (rightLeaf_invariant symbols) closing (List.forall_mem_nil _)⟩
    have keeps : KeepsPairs (nestedAt symbols budget) (innerTrace symbols budget) :=
      ⟨traced_nestedAt symbols budget, meets, fun closing => ih closing unmarked_nil⟩
    cases sequence_ok given with
    | @owed marker owes unbounded made left =>
      subst made left unbounded
      rw [trace_owed owes, fences_nil, List.append_nil]
      rcases stands with ⟨free, -⟩ | ⟨_, same, marks, closed⟩
      · rw [owes] at free
        cases free
      · rw [owes] at same
        cases same
        refine ⟨rfl, .inr ⟨stack.reverse, marker, List.reverse_cons, ?_, marks, closed⟩⟩
        exact fun node mem => unmarked node (List.mem_reverse.mp mem)
    | ended free done closed =>
      rw [trace_ended free done, fences_nil, List.append_nil]
      refine close_leaves ⟨free, .inl ⟨?_, stands.matched free⟩⟩ closed
      exact fun node mem => unmarked node (List.mem_reverse.mp mem)
    | closed free left closes unbounded marked made =>
      subst made unbounded
      rw [trace_closed free left closes]
      exact marker_complete free (stands.matched free) unmarked closes marked
    | @last next rest progress mid free left other read full closed =>
      have goes := token_goes keeps closing (here.skip left) free other unmarked
        (stands.matched free) read
      rw [trace_last free left other read full]
      unfold Goes at goes
      split at goes
      · exact close_leaves goes closed
      · rename_i open'
        cases limit with
        | unbounded => simp [open', Limit.reachedBy] at full
        | nodes count => exact close_stands goes.1 goes.2 closed
    | @more next rest progress mid free left other read space again =>
      obtain ⟨open', -⟩ := Bool.or_eq_false_iff.mp space
      have goes := token_goes keeps closing (here.skip left) free other unmarked
        (stands.matched free) read
      rw [Goes, if_neg (ne_true_of_eq_false open')] at goes
      obtain ⟨held, parts, -⟩ := token_ok read
      have here' := (readParts_meets meets closing (Start.parts_known _ _ _) (here.skip left) parts).2
      rw [trace_more free left other read space, fences_append, ← List.append_assoc]
      exact ih closing goes.1 here' goes.2 again

end

end Reader

namespace Formula

/-- Stretching delimiters match where no environment has the name of a closing one. What is parsed
has one `\right` for each `\left`, the pairs are nested, and their tokens stand in the source in this
order. A source with a `\left` and no `\right` is refused. -/
theorem ofTokens?_fences (symbols : SymbolTable) (tokens : List Token) (stop : Nat)
    (others : ∀ token ∈ tokens, token.text ≠ rightEnvironment) :
    let pairs := fences (trace symbols tokens stop)
    (∀ nodes, ofTokens? symbols tokens stop = .ok nodes →
      Matched pairs ∧ List.Sublist (pairs.map Fence.token) tokens ∧
        ∀ pair ∈ pairs, pair.token.text = pair.word) ∧
    ((∃ left, .opens left ∈ pairs) → (∀ token ∈ tokens, token.text ≠ "\\right") →
      ∃ error, ofTokens? symbols tokens stop = .error (.refused error)) := by
  intro pairs
  have parsed : ∀ nodes, ofTokens? symbols tokens stop = .ok nodes →
      Matched pairs ∧ List.Sublist (pairs.map Fence.token) tokens ∧
        ∀ pair ∈ pairs, pair.token.text = pair.word := by
    intro nodes read
    rcases ofTokens?_ok read with ⟨rfl, rfl⟩ | ⟨after, given⟩
    · exact ⟨.nil, .slnil, List.forall_mem_nil _⟩
    · have start : Cursor.Meets (· ≠ rightEnvironment) RightLeaf { tokens, last := ⟨0, 0⟩, stop } :=
        ⟨others, by rintro _ ⟨⟩⟩
      have complete :=
        Reader.sequence_leaves closing_none unmarked_nil start (.inl ⟨rfl, .nil⟩) given
      have follows := Reader.sequence_follows given
      rw [List.nil_append] at complete
      refine ⟨complete.matched nofun, ?_, follows.named⟩
      exact (List.sublist_append_left _ _).trans follows.order
  refine ⟨parsed, ?_⟩
  rintro ⟨left, opened⟩ none
  cases result : ofTokens? symbols tokens stop with
  | ok nodes =>
    obtain ⟨matched, order, named⟩ := parsed nodes result
    obtain ⟨right, closed⟩ := matched.closes opened
    have mem := order.subset (List.mem_map_of_mem closed)
    exact absurd (named _ closed) (none _ mem)
  | error failure =>
    cases failure with
    | refused error => exact ⟨error, rfl⟩
    | exhausted => exact absurd result (ofTokens?_ends symbols tokens stop)

/-- A pair of parentheses, and one that is open. -/
theorem ofTokens?_fences_pair :
    (let tokens := Source.tokens .known "\\left(a\\right)"
      ∃ nodes, ofTokens? .known tokens 14 = .ok nodes ∧ (fences (trace .known tokens 14)).length = 2 ∧
        Matched (fences (trace .known tokens 14))) ∧
      ∃ error, ofTokens? .known (Source.tokens .known "\\left(a") 7 = .error (.refused error) := by
  have given : ofTokens? .known (Source.tokens .known "\\left(a\\right)") 14 =
      .ok [{ withChildren "\\left" [.leaf "a", { Node.leaf "\\right" with delimiter := some (.single ")") }]
        with delimiter := some (.single "(") }] := by
    decide +kernel
  have opened : .opens ⟨"\\left", ⟨0, 5⟩⟩ ∈
      fences (trace .known (Source.tokens .known "\\left(a") 7) := by
    decide +kernel
  have matched := ((ofTokens?_fences .known _ 14 (by decide +kernel)).1 _ given).1
  have refused := (ofTokens?_fences .known _ 7 (by decide +kernel)).2 ⟨_, opened⟩ (by decide +kernel)
  exact ⟨⟨_, given, by decide +kernel, matched⟩, refused⟩

/-- An environment that is named for the closing delimiter is taken for one. -/
theorem right_environment_closes :
    let tokens := Source.tokens .known "\\left(\\begin\x7bright\x7da\\end\x7bright\x7d"
    (∃ nodes, ofTokens? .known tokens 31 = .ok nodes) ∧ (∀ token ∈ tokens, token.text ≠ "\\right") ∧
      ∃ left, fences (trace .known tokens 31) = [.opens left] ∧ ¬ Matched [.opens left] := by
  have given : ofTokens? .known
      (Source.tokens .known "\\left(\\begin\x7bright\x7da\\end\x7bright\x7d") 31 =
      .ok [{ withChildren "\\left" [withChildren "\\right" [.leaf "a"]] with
        delimiter := some (.single "(") }] := by
    decide +kernel
  have pairs : fences (trace .known
      (Source.tokens .known "\\left(\\begin\x7bright\x7da\\end\x7bright\x7d") 31) =
      [.opens ⟨"\\left", ⟨0, 5⟩⟩] := by
    decide +kernel
  refine ⟨⟨_, given⟩, by decide +kernel, _, pairs, fun matched => ?_⟩
  obtain ⟨right, closed⟩ := matched.closes (List.mem_singleton_self _)
  cases List.mem_singleton.mp closed

end Formula

end FormulaMarkup

import FormulaMarkup.Formula.Parse
import FormulaMarkup.Proofs.Markup.Tidy
import FormulaMarkup.Proofs.Parsing.Agreement
import Mathlib.Data.String.Basic

/-!
The attributes of parsed nodes. At every depth of what is parsed, the names of the attributes are
letters and stand in order, each of them once. Whatever is asked of all nodes of a tree is followed
through the readers here, from the nested sequences to what is made of them.
-/
namespace FormulaMarkup

/-! ## Sorted attributes -/

namespace Attributes

/-- The names are letters, in order and without repetition. -/
def Sorted (attributes : Attributes) : Prop :=
  (∀ name ∈ attributes.names, IsName name) ∧ attributes.names.Pairwise (· < ·)

theorem Sorted.tidy {attributes : Attributes} (sorted : attributes.Sorted) : attributes.Tidy :=
  ⟨sorted.1, sorted.2.imp fun less => ne_of_lt less⟩

theorem mem_names_insert {name value other : String} {attributes : Attributes}
    (mem : other ∈ (attributes.insert name value).names) :
    other = name ∨ other ∈ attributes.names := by
  induction attributes with
  | nil => exact .inl (List.mem_singleton.mp mem)
  | cons entry rest ih =>
    unfold Attributes.insert at mem
    split at mem
    · rcases List.mem_cons.mp mem with rfl | old
      · exact .inl rfl
      · exact .inr (List.mem_cons_of_mem _ old)
    · split at mem
      · exact List.mem_cons.mp mem
      · rcases List.mem_cons.mp mem with rfl | later
        · exact .inr List.mem_cons_self
        · exact (ih later).imp_right (List.mem_cons_of_mem _)

theorem Sorted.insert {attributes : Attributes} (sorted : attributes.Sorted) {name : String}
    (letters : IsName name) (value : String) : (attributes.insert name value).Sorted := by
  refine ⟨fun other mem => ?_, ?_⟩
  · rcases mem_names_insert mem with rfl | old
    · exact letters
    · exact sorted.1 other old
  · induction attributes with
    | nil => exact List.pairwise_singleton _ name
    | cons entry rest ih =>
      obtain ⟨first, later⟩ := List.pairwise_cons.mp sorted.2
      have tail : Sorted rest := ⟨fun other mem => sorted.1 other (List.mem_cons_of_mem _ mem), later⟩
      unfold Attributes.insert
      split
      · rename_i same
        subst same
        exact sorted.2
      · rename_i other
        split
        · rename_i less
          refine List.pairwise_cons.mpr ⟨fun next mem => ?_, sorted.2⟩
          rcases List.mem_cons.mp mem with rfl | mem
          · exact less
          · exact lt_trans less (first next mem)
        · rename_i notLess
          refine List.pairwise_cons.mpr ⟨fun next mem => ?_, ih tail⟩
          rcases mem_names_insert mem with rfl | mem
          · exact lt_of_le_of_ne (not_lt.mp notLess) other
          · exact first next mem

end Attributes

namespace Node

/-- A node with a property at every depth. -/
inductive All (p : Node → Prop) : Node → Prop where
  | intro {node : Node} (here : p node) (below : ∀ child ∈ node.childList, All p child) : All p node

theorem all_iff {p : Node → Prop} {node : Node} :
    node.All p ↔ p node ∧ ∀ child ∈ node.childList, child.All p := by
  constructor
  · rintro ⟨here, below⟩
    exact ⟨here, below⟩
  · rintro ⟨here, below⟩
    exact .intro here below

theorem All.mono {p q : Node → Prop} (weaker : ∀ node, p node → q node) {node : Node}
    (all : node.All p) : node.All q := by
  induction all with
  | intro here _ ih => exact .intro (weaker _ here) ih

def Tidy (node : Node) : Prop := node.All (·.attributes.Sorted)

def TidyAll (nodes : List Node) : Prop := ∀ node ∈ nodes, node.Tidy

theorem sorted_nil : Attributes.Sorted [] := ⟨nofun, .nil⟩

theorem Tidy.childList {node : Node} (tidy : node.Tidy) : TidyAll node.childList :=
  (all_iff.mp tidy).2

theorem Tidy.attributes {node : Node} (tidy : node.Tidy) : node.attributes.Sorted :=
  (all_iff.mp tidy).1

theorem tidy_of {node : Node} (sorted : node.attributes.Sorted) (below : TidyAll node.childList) :
    node.Tidy :=
  .intro sorted below

theorem tidy_leaf (token : String) : (leaf token).Tidy := .intro sorted_nil nofun

theorem tidy_withChildren {token : String} {children : List Node} (tidy : TidyAll children) :
    (withChildren token children).Tidy :=
  .intro sorted_nil tidy

theorem Tidy.setAttribute {node : Node} (tidy : node.Tidy) {name : String} (letters : IsName name)
    (value : String) : (node.setAttribute name value).Tidy :=
  .intro (tidy.attributes.insert letters value) tidy.childList

theorem TidyAll.cons {node : Node} {nodes : List Node} (first : node.Tidy) (rest : TidyAll nodes) :
    TidyAll (node :: nodes) := by
  intro other mem
  rcases List.mem_cons.mp mem with rfl | mem
  · exact first
  · exact rest other mem

theorem TidyAll.nil : TidyAll [] := List.forall_mem_nil _

theorem TidyAll.append {front back : List Node} (first : TidyAll front) (second : TidyAll back) :
    TidyAll (front ++ back) := by
  intro node mem
  rcases List.mem_append.mp mem with mem | mem
  · exact first node mem
  · exact second node mem

theorem TidyAll.reverse {nodes : List Node} (tidy : TidyAll nodes) : TidyAll nodes.reverse :=
  fun node mem => tidy node (List.mem_reverse.mp mem)

theorem TidyAll.dropLast {nodes : List Node} (tidy : TidyAll nodes) : TidyAll nodes.dropLast :=
  fun node mem => tidy node (List.dropLast_subset _ mem)

theorem TidyAll.tail {nodes : List Node} (tidy : TidyAll nodes) : TidyAll nodes.tail :=
  fun node mem => tidy node (List.mem_of_mem_tail mem)

theorem TidyAll.collapse {nodes : List Node} (tidy : TidyAll nodes) : (collapse nodes).Tidy := by
  unfold Node.collapse
  split
  · exact tidy _ (List.mem_singleton_self _)
  · exact tidy_withChildren tidy

end Node

open Node (TidyAll)

/-! ## Scripts -/

namespace Script

theorem tidy_attach (kind : ScriptKind) (modifier : Option Modifier) {base script : Node}
    (tidy : base.Tidy) (tidy' : script.Tidy) : (attach kind modifier base script).Tidy := by
  have new : TidyAll [base, script] := .cons tidy (.cons tidy' .nil)
  have below := tidy.childList
  unfold attach
  dsimp only
  split
  · rename_i inner sup held
    rw [held] at below
    have joined : TidyAll [inner, script, sup] :=
      .cons (below inner (by simp)) (.cons tidy' (.cons (below sup (by simp)) .nil))
    split
    · exact Node.tidy_of Node.sorted_nil joined
    · exact Node.tidy_of Node.sorted_nil new
  · rename_i inner old held
    rw [held] at below
    have first := below inner (by simp)
    have second := below old (by simp)
    have joined : TidyAll [inner, old, script] := .cons first (.cons second (.cons tidy' .nil))
    have both : (Node.braces [old, script]).Tidy :=
      Node.tidy_withChildren (.cons second (.cons tidy' .nil))
    have primed : TidyAll [inner, .braces [old, script]] := .cons first (.cons both .nil)
    split
    · exact Node.tidy_of Node.sorted_nil joined
    · split
      · exact Node.tidy_of Node.sorted_nil primed
      · exact Node.tidy_of Node.sorted_nil new
  · rename_i inner sub old held
    rw [held] at below
    have both : (Node.braces [old, script]).Tidy :=
      Node.tidy_withChildren (.cons (below old (by simp)) (.cons tidy' .nil))
    have primed : TidyAll [inner, sub, .braces [old, script]] :=
      .cons (below inner (by simp)) (.cons (below sub (by simp)) (.cons both .nil))
    split
    · exact Node.tidy_of Node.sorted_nil primed
    · exact Node.tidy_of Node.sorted_nil new
  · exact Node.tidy_of Node.sorted_nil new

theorem tidy_lengthen {script : Node} (tidy : script.Tidy) : (lengthen script).Tidy := by
  have stroked : (Node.braces [script, stroke]).Tidy :=
    Node.tidy_withChildren (.cons tidy (.cons (Node.tidy_leaf _) .nil))
  have below := tidy.childList
  unfold lengthen
  split
  · rename_i none
    split
    · refine Node.tidy_of tidy.attributes ?_
      simp only [Node.childList, none]
      exact .nil
    · exact stroked
  · rename_i children held
    simp only [Node.childList, held, Option.getD_some] at below
    split
    · refine Node.tidy_of tidy.attributes ?_
      have longer : TidyAll (children ++ [stroke]) :=
        Node.TidyAll.append below (.cons (Node.tidy_leaf _) .nil)
      simp only [Node.childList, Option.getD_some]
      cases found : children.getLast?.filter Node.isLeaf with
      | none => exact longer
      | some last =>
        obtain ⟨last?, _⟩ := Option.filter_eq_some_iff.mp found
        have here : last.Tidy := below last (List.mem_of_getLast? last?)
        simp only [Option.bind_some]
        cases nextPrime? last.token with
        | none => exact longer
        | some next =>
          have longest : ({ last with token := next } : Node).Tidy :=
            Node.tidy_of here.attributes here.childList
          exact Node.TidyAll.append (Node.TidyAll.dropLast below) (.cons longest .nil)
    · exact stroked

theorem tidy_addPrime {node : Node} (tidy : node.Tidy) : (addPrime node).Tidy := by
  have stroke : Script.stroke.Tidy := Node.tidy_leaf _
  have new : (Node.withChildren "^" [node, Script.stroke]).Tidy :=
    Node.tidy_withChildren (.cons tidy (.cons stroke .nil))
  have below := tidy.childList
  unfold addPrime
  dsimp only
  split
  · rename_i base script held
    rw [held] at below
    have first := below base (by simp)
    have second := below script (by simp)
    split
    · exact Node.tidy_of tidy.attributes (.cons first (.cons (tidy_lengthen second) .nil))
    · split
      · exact Node.tidy_of tidy.attributes (.cons first (.cons second (.cons stroke .nil)))
      · exact new
  · rename_i base sub sup held
    rw [held] at below
    split
    · exact Node.tidy_of tidy.attributes (.cons (below base (by simp))
        (.cons (below sub (by simp)) (.cons (tidy_lengthen (below sup (by simp))) .nil)))
    · exact new
  · exact new

end Script

namespace Alignment

/-- The cells behind an alignment in braces, or the whole body. -/
theorem drop_subset {name text : String} {body cells : List Node} {alignment : Option String}
    (taken : (if isValid text then .ok (some text, body.drop 1)
      else if required.contains name then .error text else .ok (none, body)) =
        (.ok (alignment, cells) : Except String (Option String × List Node))) : cells ⊆ body := by
  split at taken
  · cases taken
    exact List.drop_subset 1 body
  · split at taken
    · cases taken
    · cases taken
      exact List.Subset.refl body

/-- The cells of a body are nodes of the body. -/
theorem take_subset {name : String} {body cells : List Node} {alignment : Option String}
    (taken : take name body = .ok (alignment, cells)) : cells ⊆ body := by
  unfold take at taken
  split at taken
  · split at taken
    · cases taken
    · dsimp only at taken
      split at taken
      · cases taken
        exact List.drop_subset _ body
      · cases taken
  · exact drop_subset taken

end Alignment

/-! ## What readers return -/

namespace Reader

def OwesTidy (c : Cursor) : Prop := ∀ marker ∈ c.pending, marker.Tidy

/-- Whatever a reader returns is good, and what it owes stays tidy. -/
def Returns {α : Type} (r : Reader α) (good : α → Prop) : Prop :=
  ∀ c a after, OwesTidy c → r c = .ok (a, after) → good a ∧ OwesTidy after

/-- A reader that keeps what is owed tidy, whatever it returns. -/
abbrev Keeps {α : Type} (r : Reader α) : Prop := Returns r fun _ => True

namespace Returns

variable {α β : Type}

theorem pure {a : α} {good : α → Prop} (holds : good a) : Returns (Pure.pure a) good := by
  rintro c _ after owes ⟨⟩
  exact ⟨holds, owes⟩

theorem refuse {span : Span} {cause : Cause} {good : α → Prop} :
    Returns (Reader.refuse span cause) good := by
  intro c a after owes absurd
  cases absurd

theorem bind {r : Reader α} {f : α → Reader β} {mid : α → Prop} {good : β → Prop}
    (first : Returns r mid) (andThen : ∀ a, mid a → Returns (f a) good) :
    Returns (r >>= f) good := by
  intro c b after owes given
  cases read : r c with
  | error failure =>
    rw [bind_error read] at given
    cases given
  | ok result =>
    obtain ⟨a, next⟩ := result
    rw [bind_ok read] at given
    obtain ⟨here, owes⟩ := first c a next owes read
    exact andThen a here next b after owes given

theorem mono {r : Reader α} {strong weak : α → Prop} (returns : Returns r strong)
    (weaker : ∀ a, strong a → weak a) : Returns r weak :=
  fun c a after owes given =>
    ⟨weaker a (returns c a after owes given).1, (returns c a after owes given).2⟩

/-- A first reader whose value does not matter. -/
theorem step {r : Reader α} {f : α → Reader β} {good : β → Prop} (keeps : Keeps r)
    (andThen : ∀ a, Returns (f a) good) : Returns (r >>= f) good :=
  keeps.bind fun a _ => andThen a

theorem refuseLast {cause : Cause} {good : α → Prop} :
    Returns (lastSpan >>= fun span => Reader.refuse span cause) good := by
  intro c a after owes absurd
  cases absurd

theorem refuseNext {cause : Cause} {good : α → Prop} :
    Returns (nextSpan >>= fun span => Reader.refuse span cause) good := by
  intro c a after owes absurd
  obtain ⟨span, given⟩ := nextSpan_ok c
  rw [bind_ok given] at absurd
  cases absurd

end Returns

theorem get_keeps : Keeps (get : Reader Cursor) := by
  rintro c _ _ owes ⟨⟩
  exact ⟨trivial, owes⟩

theorem nextIs_keeps (text : String) : Keeps (nextIs text) := by
  rintro c _ _ owes ⟨⟩
  exact ⟨trivial, owes⟩

theorem next?_keeps : Keeps next? := by
  intro c a after owes given
  unfold next? at given
  split at given
  · cases given
    exact ⟨trivial, owes⟩
  · cases given
    exact ⟨trivial, owes⟩

theorem rawArgument_keeps (terminator : Option String) : Keeps (rawArgument terminator) := by
  unfold rawArgument
  refine .step get_keeps fun c => ?_
  dsimp only
  split
  · exact .refuseNext
  · refine .step next?_keeps fun next => ?_
    split
    · exact .pure trivial
    · exact .refuseNext

theorem bracedText_keeps : Keeps bracedText := by
  rintro c _ _ owes ⟨⟩
  exact ⟨trivial, owes⟩

/-- Readers of what is nested that return tidy nodes only. -/
structure TidyNested (nested : Nested) : Prop where
  raw : ∀ terminator, Keeps (nested.raw terminator)
  sequence : ∀ terminator limit, Returns (nested.sequence terminator limit) TidyAll

open Node (tidy_of tidy_leaf tidy_withChildren sorted_nil)

variable {nested : Nested} (tidy : TidyNested nested) (terminator : Option String)

include tidy

theorem fence?_keeps : Keeps (fence? nested terminator) := by
  unfold fence?
  refine .step (tidy.raw _) fun raw => ?_
  dsimp only
  split
  · exact .step bracedText_keeps fun text => .pure trivial
  · exact .pure trivial

theorem optional_returns : Returns (optional nested terminator) TidyAll := by
  unfold optional
  refine .step get_keeps fun c => ?_
  split
  · exact .pure .nil
  · exact tidy.sequence terminator .unbounded

theorem group_returns (closing : String) : Returns (group nested closing) TidyAll := by
  unfold group
  refine .bind (optional_returns tidy _) fun nodes all => ?_
  split
  · exact .pure all.dropLast
  · exact .pure all

theorem remainder_returns : Returns (remainder nested terminator) fun result =>
    TidyAll result.1 ∧ TidyAll result.2.toList := by
  unfold remainder
  refine .bind (optional_returns tidy _) fun nodes all => ?_
  split
  · rename_i found
    split
    · exact .pure ⟨all.dropLast, .cons (all _ (List.mem_of_getLast? found)) .nil⟩
    · exact .pure ⟨all, .nil⟩
  · exact .pure ⟨all, .nil⟩

theorem argument_returns : Returns (argument nested terminator) Node.Tidy := by
  unfold argument
  exact .bind (tidy.sequence _ _) fun nodes all => .pure all.collapse

theorem bracketed_returns {labelled : List Node → Node → Node} {bare : Node → Node}
    (shown : ∀ label base, TidyAll label → base.Tidy → (labelled label base).Tidy)
    (plainly : ∀ base : Node, base.Tidy → (bare base).Tidy) :
    Returns (bracketed nested terminator labelled bare) Node.Tidy := by
  unfold bracketed
  refine .step (nextIs_keeps _) fun follows => ?_
  split
  · refine .step next?_keeps fun _ => .bind (group_returns tidy _) fun label all => ?_
    exact .bind (argument_returns tidy _) fun base here => .pure (shown label base all here)
  · exact .bind (argument_returns tidy _) fun base here => .pure (plainly base here)

theorem labelledArrow_returns (token : String) :
    Returns (labelledArrow nested terminator token) Node.Tidy := by
  apply bracketed_returns tidy
  · intro label base all here
    exact tidy_withChildren (.cons (tidy_withChildren all) (.cons here .nil))
  · intro base here
    exact tidy_withChildren (.cons here .nil)

theorem space_returns (token : String) : Returns (space nested terminator token) Node.Tidy := by
  unfold space
  refine .bind (argument_returns tidy _) fun width _ => ?_
  dsimp only
  split
  · exact .refuseLast
  · exact .pure ((tidy_leaf token).setAttribute (by decide) _)

theorem squareRoot_returns : Returns (squareRoot nested terminator) Node.Tidy := by
  apply bracketed_returns tidy
  · intro index radicand all here
    split
    · exact tidy_withChildren (.cons here .nil)
    · exact tidy_withChildren (.cons here (.cons all.collapse .nil))
  · intro radicand here
    exact tidy_withChildren (.cons here .nil)

theorem root_returns : Returns (root nested terminator) Node.Tidy := by
  unfold root
  refine .bind (group_returns tidy _) fun index all => ?_
  refine .bind (argument_returns tidy _) fun radicand here => .pure ?_
  exact tidy_withChildren (.cons here (.cons all.collapse .nil))

theorem generalFraction_returns : Returns (generalFraction nested terminator) Node.Tidy := by
  unfold generalFraction
  refine .step (fence?_keeps tidy _) fun opening => .step (fence?_keeps tidy _) fun closing => ?_
  refine .bind (argument_returns tidy _) fun thickness _ => ?_
  refine .bind (argument_returns tidy _) fun style _ => ?_
  refine .bind (tidy.sequence _ _) fun parts all => ?_
  dsimp only
  generalize
    (if opening.isSome || closing.isSome then some (Delimiter.pair opening closing) else none) = pair
  have plain : ({ Node.withChildren "\\genfrac" parts with delimiter := pair } : Node).Tidy :=
    tidy_of sorted_nil all
  have fraction : (if thickness.flatText.isEmpty then
      ({ Node.withChildren "\\genfrac" parts with delimiter := pair } : Node)
      else ({ Node.withChildren "\\genfrac" parts with delimiter := pair } : Node).setAttribute
        "linethickness" thickness.flatText).Tidy := by
    split
    · exact plain
    · exact plain.setAttribute (by decide) _
  refine .pure ?_
  split
  · exact tidy_withChildren (.cons (tidy_leaf _) (.cons fraction .nil))
  · exact fraction

omit tidy in
theorem sideParts_tidy {node : Node} (here : node.Tidy) : TidyAll (sideParts node).2 := by
  unfold sideParts
  split
  · rename_i only held
    have below := here.childList
    simp only [Node.childList, held, Option.getD_some] at below
    split
    · have inner := (below only (by simp)).childList
      exact fun node mem => inner node (List.mem_of_mem_drop mem)
    · exact .nil
  · exact .nil

theorem sideScripts_returns : Returns (sideScripts nested terminator) Node.Tidy := by
  unfold sideScripts
  refine .bind (tidy.sequence _ _) fun parts all => ?_
  split
  · rename_i left right operator rest
    have sorted : Attributes.Sorted [("movablelimits", "false")] :=
      ⟨by decide, List.pairwise_singleton _ _⟩
    have core : Node.Tidy (Node.mk operator.token operator.children none none none
        [("movablelimits", "false")] none) :=
      tidy_of sorted (all operator (by simp)).childList
    have leftParts := sideParts_tidy (all left (by simp))
    have rightParts := sideParts_tidy (all right (by simp))
    refine .pure (tidy_withChildren (.cons (tidy_withChildren (.cons ?_ leftParts)) (.cons
      (tidy_withChildren (.cons core rightParts)) .nil)))
    exact tidy_withChildren (.cons core .nil)
  · exact .refuseLast

theorem skew_returns (span : Span) : Returns (skew nested terminator span) Node.Tidy := by
  unfold skew
  refine .bind (tidy.sequence _ _) fun parts all => ?_
  split
  · rename_i width target rest
    dsimp only
    split
    · have skewed : (Node.withChildren "\\skew" [target]).Tidy :=
        tidy_withChildren (.cons (all target (by simp)) .nil)
      exact .pure (skewed.setAttribute (by decide) _)
    · exact .refuse
  · exact .refuseLast

omit terminator in
theorem environment_returns (span : Span) (header : String) :
    Returns (environment nested span header) Node.Tidy := by
  unfold environment
  refine .bind (optional_returns tidy _) fun nodes all => ?_
  dsimp only
  split
  · split
    · rename_i alignment body taken
      refine .pure (tidy_of sorted_nil fun node mem => all node ?_)
      exact List.dropLast_subset _ (Alignment.take_subset taken mem)
    · exact .refuse
  · exact .refuse

omit terminator in
theorem leftRight_returns (span : Span) : Returns (leftRight nested span) Node.Tidy := by
  unfold leftRight
  refine .step next?_keeps fun delimiter => ?_
  split
  · exact .refuse
  · refine .bind (optional_returns tidy _) fun children all => ?_
    split
    · exact .pure (tidy_of sorted_nil all)
    · exact .refuse

/-! ## Commands that change the stack -/

variable {stack : List Node} (above : TidyAll stack)

include above

theorem script_returns (kind : ScriptKind) (span : Span) :
    Returns (script nested terminator kind span stack) fun progress => TidyAll progress.stack := by
  have base : (stack.head?.getD (.braces [])).Tidy := by
    cases stack with
    | nil => exact tidy_withChildren .nil
    | cons first rest => exact above first List.mem_cons_self
  unfold script
  dsimp only
  split
  · exact .refuse
  · split
    · split
      · rename_i operator deeper below
        have rest := above.tail
        rw [below] at rest
        split
        · refine .bind (argument_returns tidy _) fun argument here => .pure ?_
          exact .cons (Script.tidy_attach _ _ (rest operator (by simp)) here)
            fun node mem => rest node (List.mem_cons_of_mem _ mem)
        · exact .refuse
      · exact .refuse
    · refine .bind (argument_returns tidy _) fun argument here => .pure ?_
      exact .cons (Script.tidy_attach _ _ base here) above.tail

theorem negation_returns (symbols : SymbolTable) :
    Returns (negation symbols nested terminator stack) fun progress => TidyAll progress.stack := by
  unfold negation
  refine .bind (argument_returns tidy _) fun target here => ?_
  split
  · exact .pure (.cons (tidy_leaf _) above)
  · exact .pure (.cons here (.cons (tidy_leaf _) above))

theorem color_returns (token : String) :
    Returns (color nested terminator token stack) fun progress => TidyAll progress.stack := by
  unfold color
  refine .step (tidy.raw _) fun value => .bind (remainder_returns tidy _) ?_
  rintro ⟨nodes, marker⟩ ⟨all, last⟩
  have plain : (Node.withChildren token nodes).Tidy := tidy_withChildren all
  exact .pure (.append last (.cons (plain.setAttribute (by decide) value) above))

theorem table_returns (token : String) :
    Returns (table nested terminator token stack) fun progress => TidyAll progress.stack := by
  unfold table
  refine .step (nextIs_keeps _) fun follows => ?_
  split
  · refine .step next?_keeps fun _ => .bind (group_returns tidy _) fun body all => ?_
    exact .pure (.cons (tidy_withChildren all) above)
  · refine .bind (remainder_returns tidy _) ?_
    rintro ⟨nodes, marker⟩ ⟨all, last⟩
    refine .pure (.append last (.cons (tidy_withChildren ?_) above))
    split
    · split
      · exact (all _ (List.mem_singleton_self _)).childList
      · exact all
    · exact all

theorem infixFraction_returns (fraction : InfixFraction) (span : Span) :
    Returns (infixFraction nested terminator fraction span stack)
      fun progress => TidyAll progress.stack := by
  have bar : Returns (infixBar nested terminator fraction) Attributes.Sorted := by
    have one : ∀ value, Attributes.Sorted [("linethickness", value)] := fun value =>
      ⟨by simp [Attributes.names]; decide, List.pairwise_singleton _ _⟩
    unfold infixBar
    split
    · exact .pure sorted_nil
    · exact .pure (one _)
    · exact .bind (argument_returns tidy _) fun thickness _ => .pure (one _)
  unfold infixFraction
  have fences : Keeps (infixFences nested terminator fraction) := by
    unfold infixFences
    split
    · exact .step (fence?_keeps tidy _) fun _ => .step (fence?_keeps tidy _) fun _ => .pure trivial
    · exact .pure trivial
  refine .step fences fun delimiter => .bind bar fun attributes sorted => ?_
  refine .bind (remainder_returns tidy _) ?_
  rintro ⟨under, marker⟩ ⟨all, last⟩
  dsimp only
  split
  · exact .refuse
  · split
    · exact .refuse
    · refine .pure (.append last (.cons (tidy_of sorted ?_) .nil))
      exact .cons above.reverse.collapse (.cons all.collapse .nil)

/-! ## All commands -/

omit tidy in
theorem push_returns {r : Reader Node} (returns : Returns r Node.Tidy) :
    Returns (r >>= fun node => pure ⟨node :: stack, false⟩)
      fun progress : Progress => TidyAll progress.stack :=
  returns.bind fun _ here => .pure (.cons here above)

theorem command_returns (symbols : SymbolTable) (token : Token) :
    Returns (command symbols nested terminator token stack)
      fun progress => TidyAll progress.stack := by
  unfold command
  dsimp only
  split
  · exact .pure (.cons (tidy_leaf _) above)
  · exact .bind (tidy.sequence _ _) fun nodes all => .pure (.cons (tidy_withChildren all) above)
  · exact .bind (tidy.sequence _ _) fun nodes all => .pure (.cons (tidy_withChildren all.reverse) above)
  · exact negation_returns tidy _ above symbols
  · exact push_returns above (labelledArrow_returns tidy _ _)
  · exact push_returns above (space_returns tidy _ _)
  · exact color_returns tidy _ above _
  · refine .step (tidy.raw _) fun value => .bind (argument_returns tidy _) fun node here => .pure ?_
    exact .cons (here.setAttribute (by decide) value) above
  · exact .step (tidy.raw _) fun text => .pure (.cons (tidy_of sorted_nil .nil) above)
  · refine .step (tidy.raw _) fun target => .bind (tidy.sequence _ _) fun nodes all => .pure (.cons ?_ above)
    exact (tidy_withChildren all).setAttribute (by decide) target
  · exact infixFraction_returns tidy _ above _ _
  · exact push_returns above (squareRoot_returns tidy _)
  · exact push_returns above (root_returns tidy _)
  · exact table_returns tidy _ above _
  · exact push_returns above (generalFraction_returns tidy _)
  · exact push_returns above (sideScripts_returns tidy _)
  · exact push_returns above (skew_returns tidy _ _)

theorem token_returns (symbols : SymbolTable) (token : Token) :
    Returns (Reader.token symbols nested terminator token stack)
      fun progress => TidyAll progress.stack := by
  unfold Reader.token
  dsimp only
  split
  · exact .refuse
  split
  · exact .refuse
  split
  · exact push_returns above (environment_returns tidy _ _)
  split
  · exact push_returns above (leftRight_returns tidy _)
  split
  · exact .bind (group_returns tidy _) fun nodes all => .pure (.cons (tidy_withChildren all) above)
  split
  · exact script_returns tidy _ above _ _
  split
  · exact script_returns tidy _ above _ _
  split
  · refine .pure (.cons (Script.tidy_addPrime ?_) above.tail)
    cases stack with
    | nil => exact tidy_withChildren .nil
    | cons first rest => exact above first List.mem_cons_self
  · exact command_returns tidy _ above symbols token

omit tidy in
theorem close_returns (limit : Limit) (consumed : Bool) :
    Returns (Reader.close terminator limit consumed stack) TidyAll := by
  unfold Reader.close
  split
  · exact .refuseNext
  · split
    · exact .pure above.reverse
    · dsimp only
      split
      · rename_i marker found
        have owed : marker.Tidy :=
          above marker (List.mem_of_mem_head? (Option.filter_eq_some_iff.mp found).1)
        split
        · refine .step ?_ fun _ => .pure above.tail.reverse
          rintro c _ _ owes ⟨⟩
          refine ⟨trivial, ?_⟩
          rintro _ ⟨⟩
          exact owed
        · exact .refuseLast
      · split
        · exact .refuseLast
        · exact .pure above.reverse

omit tidy above in
theorem marker_returns (text : String) : Returns (marker text) Node.Tidy := by
  unfold marker
  split
  · exact .step next?_keeps fun next => .pure (tidy_of sorted_nil .nil)
  · exact .pure (tidy_leaf text)

omit tidy terminator above in
/-- Every sequence is read into tidy nodes. -/
theorem sequence_returns (symbols : SymbolTable) (budget : Nat) (terminator : Option String)
    (limit : Limit) (consumed : Bool) (stack : List Node) (above : TidyAll stack) :
    Returns (sequence symbols terminator limit budget consumed stack) TidyAll := by
  induction budget generalizing terminator limit consumed stack with
  | zero =>
    intro c a after owes absurd
    cases absurd
  | succ budget ih =>
    have tidy : TidyNested ⟨rawArgument,
        fun terminator limit => sequence symbols terminator limit budget false []⟩ :=
      ⟨rawArgument_keeps, fun terminator limit => ih terminator limit false [] .nil⟩
    have pending : Returns takePending fun owed => TidyAll owed.toList := by
      rintro c _ _ owes ⟨⟩
      refine ⟨fun marker mem => owes marker (Option.mem_toList.mp mem), nofun⟩
    unfold sequence turn
    refine .bind pending fun owed last => ?_
    split
    · split
      · exact close_returns _ (.cons (last _ (by simp)) above) _ _
      · exact .refuseLast
    · refine .step next?_keeps fun next => ?_
      split
      · exact close_returns _ above _ _
      · split
        · split
          · exact .bind (marker_returns _) fun marker here => close_returns _ (.cons here above) _ _
          · exact .refuse
        · refine .bind (token_returns tidy _ above symbols _) fun progress all => ?_
          split
          · exact close_returns _ all _ _
          · exact ih _ _ _ _ all

end Reader

namespace Formula

theorem tidy_ofTokens? {symbols : SymbolTable} {tokens : List Token} {stop : Nat}
    {nodes : List Node} (read : ofTokens? symbols tokens stop = .ok nodes) : TidyAll nodes := by
  unfold ofTokens? at read
  dsimp only at read
  split at read
  · cases read
    exact .nil
  · rw [StateT.run] at read
    cases given : Reader.sequence symbols none .unbounded (tokens.length + 1) false []
        { tokens, last := ⟨0, 0⟩, stop } with
    | error failure =>
      rw [given] at read
      cases read
    | ok result =>
      rw [given] at read
      cases read
      have owes : Reader.OwesTidy { tokens, last := ⟨0, 0⟩, stop } := by
        rintro _ ⟨⟩
      exact (Reader.sequence_returns symbols _ none .unbounded false [] .nil _ _ _ owes given).1

/-- All nodes of a source are tidy. -/
theorem tidy_parse {symbols : SymbolTable} {source : String} {nodes : List Node}
    (parsed : parse symbols source = .ok nodes) : TidyAll nodes := by
  unfold parse at parsed
  dsimp only at parsed
  split at parsed
  · rename_i read
    cases parsed
    exact tidy_ofTokens? read
  · cases parsed
  · cases parsed

end Formula

end FormulaMarkup

import FormulaMarkup.Proofs.Parsing.Attributes
import FormulaMarkup.Proofs.Parsing.Invariants
import FormulaMarkup.Proofs.Source.Layout

/-!
Raw texts. A node gets its text from a token and hands it on to no other node, so each text in a
parsed tree is that of a token. Main statement: none of these texts is longer than the source.
-/
namespace FormulaMarkup

open Node (withChildren collapse)

namespace Node

variable {p : String → Prop}

/-- A node whose raw text, if it has one, has a property. -/
def Told (p : String → Prop) (node : Node) : Prop := ∀ text ∈ node.text, p text

theorem told_new {node : Node} (new : node.text = none)
    (below : ∀ child ∈ node.childList, child.All (Told p)) : node.All (Told p) := by
  refine .intro ?_ below
  intro text mem
  rw [new] at mem
  cases mem

theorem told_leaf (token : String) : (leaf token).All (Told p) := told_new rfl nofun

theorem told_withChildren {token : String} {children : List Node}
    (below : ∀ child ∈ children, child.All (Told p)) : (withChildren token children).All (Told p) :=
  told_new rfl below

theorem told_collapse {nodes : List Node} (all : ∀ node ∈ nodes, node.All (Told p)) :
    (collapse nodes).All (Told p) := by
  unfold collapse
  split
  · exact all _ (List.mem_singleton_self _)
  · exact told_withChildren all

/-- A node that holds a list of nodes. -/
theorem told_holding {node : Node} {children : List Node} (new : node.text = none)
    (held : node.children = some children) (below : ∀ child ∈ children, child.All (Told p)) :
    node.All (Told p) := by
  refine told_new new ?_
  rwa [childList, held]

end Node

open Node

/-! ## Scripts and primes -/

namespace Script

variable {p : String → Prop}

theorem told_attach (kind : ScriptKind) (modifier : Option Modifier) {base script : Node}
    (here : base.All (Told p)) (here' : script.All (Told p)) :
    (attach kind modifier base script).All (Told p) := by
  have below := (all_iff.mp here).2
  have new : ∀ modifier : Option Modifier,
      Node.All (Told p) { withChildren kind.token [base, script] with modifier } := fun modifier =>
    told_holding rfl rfl (by simp [here, here'])
  unfold attach
  dsimp only
  split
  · rename_i inner sup held
    simp only [held, List.forall_mem_cons] at below
    split
    · exact told_holding rfl rfl (by simp [below, here'])
    · exact new _
  · rename_i inner old held
    simp only [held, List.forall_mem_cons] at below
    split
    · exact told_holding rfl rfl (by simp [below, here'])
    · split
      · have both : (braces [old, script]).All (Told p) := told_withChildren (by simp [below, here'])
        exact told_holding rfl rfl (by simp [below, both])
      · exact new _
  · rename_i inner sub old held
    simp only [held, List.forall_mem_cons] at below
    split
    · have both : (braces [old, script]).All (Told p) := told_withChildren (by simp [below, here'])
      exact told_holding rfl rfl (by simp [below, both])
    · exact new _
  · exact new _

theorem told_lengthen {script : Node} (here : script.All (Told p)) :
    (lengthen script).All (Told p) := by
  obtain ⟨own, below⟩ := all_iff.mp here
  have stroke : Script.stroke.All (Told p) := told_leaf _
  have stroked : (Node.braces [script, Script.stroke]).All (Told p) :=
    told_withChildren (by simp [here, stroke])
  unfold lengthen
  split
  · rename_i leaf
    split
    · refine .intro own ?_
      simp [childList, leaf]
    · exact stroked
  · rename_i children held
    rw [childList, held] at below
    split
    · refine .intro own ?_
      have longer : ∀ child ∈ children ++ [Script.stroke], child.All (Told p) :=
        List.forall_mem_append.mpr ⟨below, List.forall_mem_singleton.mpr stroke⟩
      simp only [childList, Option.getD_some]
      cases found : children.getLast?.filter Node.isLeaf with
      | none => exact longer
      | some last =>
        obtain ⟨last?, -⟩ := Option.filter_eq_some_iff.mp found
        have last' := all_iff.mp (below last (List.mem_of_getLast? last?))
        simp only [Option.bind_some]
        cases nextPrime? last.token with
        | none => exact longer
        | some next =>
          refine List.forall_mem_append.mpr ⟨fun child mem => ?_, List.forall_mem_singleton.mpr ?_⟩
          · exact below child (List.dropLast_subset _ mem)
          · exact .intro last'.1 last'.2
    · exact stroked

theorem told_addPrime {node : Node} (here : node.All (Told p)) : (addPrime node).All (Told p) := by
  obtain ⟨own, below⟩ := all_iff.mp here
  have stroke : Script.stroke.All (Told p) := told_leaf _
  have new : (withChildren "^" [node, Script.stroke]).All (Told p) :=
    told_withChildren (by simp [here, stroke])
  unfold addPrime
  dsimp only
  split
  · rename_i base script held
    simp only [held, List.forall_mem_cons] at below
    have longer := told_lengthen below.2.1
    split
    · exact .intro own (by simp [childList, below, longer])
    · split
      · exact .intro own (by simp [childList, below, stroke])
      · exact new
  · rename_i base sub sup held
    simp only [held, List.forall_mem_cons] at below
    have longer := told_lengthen below.2.2.1
    split
    · exact .intro own (by simp [childList, below, longer])
    · exact new
  · exact new

end Script

/-! ## All nodes -/

section

variable {p : String → Prop} {symbols : SymbolTable} {terminator : Option String} {text : String}
  {stack : List Node} {held : List (List Node)} {start : Start}

theorem told_stripped (closing : String) {nodes : List Node}
    (all : ∀ node ∈ nodes, node.All (Told p)) :
    ∀ node ∈ Reader.stripped closing nodes, node.All (Told p) := by
  unfold Reader.stripped
  split
  · exact fun node mem => all node (List.dropLast_subset _ mem)
  · exact all

/-- The scripts of a decoration go on an operator, which takes the place of their base. -/
theorem told_decoration {decoration base : Node} (here : decoration.All (Told p))
    (base' : base.All (Told p)) :
    (withChildren (Reader.sideParts decoration).1 (base :: (Reader.sideParts decoration).2)).All
      (Told p) := by
  have below := (all_iff.mp here).2
  refine told_withChildren (List.forall_mem_cons.mpr ⟨base', ?_⟩)
  unfold Reader.sideParts
  split
  · rename_i only held
    simp only [childList, held, Option.getD_some, List.forall_mem_singleton] at below
    split
    · exact fun child mem => (all_iff.mp below).2 child (List.mem_of_mem_drop mem)
    · exact List.forall_mem_nil _
  · exact List.forall_mem_nil _

theorem told_sideset {left right operator : Node} (left' : left.All (Told p))
    (right' : right.All (Told p)) (operator' : operator.All (Told p)) :
    (sideset left right operator).All (Told p) := by
  have core : operator.sideOperator.All (Told p) := told_new rfl (all_iff.mp operator').2
  have phantom : (withChildren "\\vphantom" [operator.sideOperator]).All (Told p) :=
    told_withChildren (List.forall_mem_singleton.mpr core)
  exact told_withChildren (List.forall_mem_cons.mpr
    ⟨told_decoration left' phantom, List.forall_mem_singleton.mpr (told_decoration right' core)⟩)

theorem told_builds {node : Node} (all : ∀ nodes ∈ held, ∀ node ∈ nodes, node.All (Told p))
    (raw : start = .command (some .rawText) → ∀ value ∈ node.text, p value)
    (built : Builds symbols text start held node) : node.All (Told p) := by
  have one {nodes : List Node} (mem : nodes ∈ held) := told_collapse (all nodes mem)
  cases built with
  | leaf => exact told_leaf _
  | nodes => exact told_withChildren (all _ (by simp))
  | reversed => exact told_withChildren fun node mem => all _ (by simp) node (List.mem_reverse.mp mem)
  | negated => exact told_leaf _
  | bareArrow => exact told_withChildren (by simp [one])
  | @labelledArrow label =>
    have label' : (braces (Reader.stripped "]" label)).All (Told p) :=
      told_withChildren (told_stripped _ (all label (by simp)))
    exact told_withChildren (by simp [label', one])
  | space => exact told_new rfl nofun
  | style =>
    obtain ⟨own, below⟩ := all_iff.mp (one (List.mem_cons_of_mem _ (List.mem_singleton_self _)))
    exact .intro own below
  | rawText => exact .intro (raw rfl) nofun
  | link => exact told_holding rfl rfl (all _ (by simp))
  | squareRoot => exact told_withChildren (by simp [one])
  | emptyIndex => exact told_withChildren (by simp [one])
  | @indexedRoot index =>
    have index' := told_collapse (told_stripped "]" (all index (by simp)))
    exact told_withChildren (by simp [index', one])
  | @root index =>
    have index' := told_collapse (told_stripped "\\of" (all index (by simp)))
    exact told_withChildren (by simp [index', one])
  | table => exact told_withChildren (told_stripped _ (all _ (by simp)))
  | generalFraction => exact told_holding rfl rfl (all _ (by simp))
  | @styledFraction thickness style args switch delimiter attributes known =>
    have fraction : Node.All (Told p) { withChildren "\\genfrac" args with delimiter, attributes } :=
      told_holding rfl rfl (all args (by simp))
    exact told_withChildren (by simp [told_leaf, fraction])
  | sideScripts =>
    have here := all _ (List.mem_singleton_self _)
    exact told_sideset (here _ (by simp)) (here _ (by simp)) (here _ (by simp))
  | skew =>
    have here := all _ (List.mem_singleton_self _)
    exact told_holding rfl rfl (List.forall_mem_singleton.mpr (here _ (by simp)))
  | @environment nodes body alignment closed taken =>
    have here := all nodes (by simp)
    exact told_holding rfl rfl fun node mem =>
      here node (List.dropLast_subset _ (Alignment.take_subset taken mem))
  | leftRight => exact told_holding rfl rfl (all _ (by simp))
  | group => exact told_withChildren (told_stripped _ (all _ (by simp)))

theorem told_base (above : ∀ node ∈ stack, node.All (Told p)) :
    (stack.head?.getD (.braces [])).All (Told p) := by
  cases stack with
  | nil => exact told_withChildren (List.forall_mem_nil _)
  | cons first rest => exact above first List.mem_cons_self

theorem told_unbraced {nodes : List Node} (all : ∀ node ∈ nodes, node.All (Told p)) :
    ∀ node ∈ unbraced nodes, node.All (Told p) := by
  unfold unbraced
  split
  · split
    · exact (all_iff.mp (all _ (List.mem_singleton_self _))).2
    · exact all
  · exact all

theorem told_makes {progress : Progress} (above : ∀ node ∈ stack, node.All (Told p))
    (all : ∀ nodes ∈ held, ∀ node ∈ nodes, node.All (Told p))
    (raw : start = .command (some .rawText) →
      ∀ first ∈ progress.stack.head?, ∀ value ∈ first.text, p value)
    (made : Makes symbols terminator text stack start held progress) :
    ∀ node ∈ progress.stack, node.All (Told p) := by
  have one {nodes : List Node} (mem : nodes ∈ held) := told_collapse (all nodes mem)
  have below : ∀ node ∈ stack.tail, node.All (Told p) :=
    fun node mem => above node (List.mem_of_mem_tail mem)
  cases made with
  | push built =>
    have built' := told_builds all (fun starts value mem => raw starts _ rfl value mem) built
    exact List.forall_mem_cons.mpr ⟨built', above⟩
  | negation =>
    exact List.forall_mem_cons.mpr ⟨one (List.mem_singleton_self _),
      List.forall_mem_cons.mpr ⟨told_leaf _, above⟩⟩
  | @color all' nodes marker value parted =>
    obtain ⟨front, last⟩ := parted.forall_iff.mp (all all' (by simp))
    exact List.forall_mem_append.mpr
      ⟨last, List.forall_mem_cons.mpr ⟨told_holding rfl rfl front, above⟩⟩
  | @table all' nodes marker parted =>
    obtain ⟨front, last⟩ := parted.forall_iff.mp (all all' (by simp))
    exact List.forall_mem_append.mpr
      ⟨last, List.forall_mem_cons.mpr ⟨told_withChildren (told_unbraced front), above⟩⟩
  | @infixFraction fraction held' all' nodes marker delimiter attributes parted =>
    obtain ⟨front, last⟩ := parted.forall_iff.mp (all all' (by simp))
    have numerator : (collapse stack.reverse).All (Told p) :=
      told_collapse fun node mem => above node (List.mem_reverse.mp mem)
    refine List.forall_mem_append.mpr ⟨last, List.forall_mem_singleton.mpr ?_⟩
    exact told_holding rfl rfl (by simp [numerator, told_collapse front])
  | script =>
    exact List.forall_mem_cons.mpr ⟨Script.told_attach _ none (told_base above)
      (one (List.mem_singleton_self _)), below⟩
  | limits above' =>
    subst above'
    obtain ⟨operator, below'⟩ := List.forall_mem_cons.mp (List.forall_mem_cons.mp above).2
    exact List.forall_mem_cons.mpr ⟨Script.told_attach _ _ operator
      (one (List.mem_singleton_self _)), below'⟩
  | prime => exact List.forall_mem_cons.mpr ⟨Script.told_addPrime (told_base above), below⟩

end

theorem told_invariant (symbols : SymbolTable) (p : String → Prop) :
    Invariant symbols p (·.All (Told p)) where
  makes _ _ above all raw made := told_makes above all raw made
  marker _ _ := told_new rfl nofun

namespace Source

/-- A token is no longer than its source. -/
theorem length_text_le {symbols : SymbolTable} {source : String} {token : Token}
    (listed : token ∈ tokens symbols source) : token.text.length ≤ source.length := by
  obtain ⟨before, inside, behind, rfl, -, -, -, nonempty, reads⟩ :=
    (tokens_keep_source symbols source).1 token listed
  have within : token.text.length ≤ inside.toList.length := by
    generalize inside.toList = chars at reads
    generalize token.text = text at reads
    cases reads with
    | written => simp
    | withoutBlanks => simpa using List.length_filter_le _ _
    | symbol command letters known =>
      subst command
      simp
  simp only [String.length_append]
  rw [String.length_toList] at within
  omega

end Source

/-- None of the raw texts of a parsed source is longer than the source. -/
theorem Formula.parse_texts {symbols : SymbolTable} {source : String} {nodes : List Node}
    (given : parse symbols source = .ok nodes) :
    ∀ node ∈ nodes, node.All (Told (·.length ≤ source.length)) := by
  unfold parse at given
  dsimp only at given
  split at given
  · rename_i read
    cases given
    exact ofTokens?_meets (told_invariant symbols _) (fun token mem => Source.length_text_le mem) read
  · cases given
  · cases given

end FormulaMarkup

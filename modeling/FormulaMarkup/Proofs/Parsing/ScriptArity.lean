import FormulaMarkup.Proofs.Parsing.Attributes
import FormulaMarkup.Proofs.Parsing.Commands
import FormulaMarkup.Proofs.Parsing.Invariants
import FormulaMarkup.Proofs.Parsing.Leaves
import FormulaMarkup.Symbol.Known

/-!
The children of scripts. A node for one script holds a base and that script, a node for both kinds a
base and two scripts, at every depth of what is parsed. Only a token that is the name of a node for
both kinds could be parsed into a node of that name that holds nothing.
-/
namespace FormulaMarkup

namespace Node

/-- How many children a node has that is named for scripts. -/
def scriptCount? : String → Option Nat
  | "_" | "^" => some 2
  | "_^" => some 3
  | _ => none

/-- A node that is named for scripts holds a base and as many scripts as its name says. -/
def Scripted (node : Node) : Prop :=
  ∀ count, scriptCount? node.token = some count → node.childList.length = count

theorem scriptCount?_eq_none {text : String} (sub : text ≠ "_") (sup : text ≠ "^")
    (both : text ≠ "_^") : scriptCount? text = none := by
  unfold scriptCount?
  split
  · exact absurd rfl sub
  · exact absurd rfl sup
  · exact absurd rfl both
  · rfl

theorem scriptCount?_command {text : String} {rest : List Char} (start : text.toList = '\\' :: rest) :
    scriptCount? text = none := by
  refine scriptCount?_eq_none ?_ ?_ ?_
  · rintro rfl
    cases start
  · rintro rfl
    cases start
  · rintro rfl
    cases start

theorem scripted_of_name {node : Node} (other : scriptCount? node.token = none)
    (below : ∀ child ∈ node.childList, child.All Scripted) : node.All Scripted := by
  refine .intro ?_ below
  intro count named
  rw [other] at named
  cases named

theorem scripted_leaf {text : String} (other : scriptCount? text = none) :
    (leaf text).All Scripted :=
  scripted_of_name other (List.forall_mem_nil _)

theorem scripted_withChildren {text : String} {children : List Node}
    (other : scriptCount? text = none) (below : ∀ child ∈ children, child.All Scripted) :
    (withChildren text children).All Scripted :=
  scripted_of_name other below

theorem scripted_braces {children : List Node} (below : ∀ child ∈ children, child.All Scripted) :
    (braces children).All Scripted :=
  scripted_withChildren rfl below

theorem scripted_collapse {nodes : List Node} (all : ∀ node ∈ nodes, node.All Scripted) :
    (collapse nodes).All Scripted := by
  unfold collapse
  split
  · exact all _ (List.mem_singleton_self _)
  · exact scripted_braces all

/-- A node for one script. -/
theorem scripted_one {node base script : Node} (held : node.childList = [base, script])
    (name : node.token = "_" ∨ node.token = "^") (base' : base.All Scripted)
    (script' : script.All Scripted) : node.All Scripted := by
  refine .intro ?_ ?_
  · intro count named
    rcases name with name | name
    · rw [name] at named
      cases named
      rw [held]
      rfl
    · rw [name] at named
      cases named
      rw [held]
      rfl
  · rw [held]
    exact List.forall_mem_cons.mpr ⟨base', List.forall_mem_singleton.mpr script'⟩

/-- A node for two scripts. -/
theorem scripted_both {node base sub sup : Node} (held : node.childList = [base, sub, sup])
    (name : node.token = Script.both) (base' : base.All Scripted) (sub' : sub.All Scripted)
    (sup' : sup.All Scripted) : node.All Scripted := by
  refine .intro ?_ ?_
  · intro count named
    rw [name] at named
    cases named
    rw [held]
    rfl
  · rw [held]
    exact List.forall_mem_cons.mpr
      ⟨base', List.forall_mem_cons.mpr ⟨sub', List.forall_mem_singleton.mpr sup'⟩⟩

end Node

open Node

/-! ## Scripts and primes -/

namespace Script

theorem scripted_attach (kind : ScriptKind) (modifier : Option Modifier) {base script : Node}
    (here : base.All Scripted) (here' : script.All Scripted) :
    (attach kind modifier base script).All Scripted := by
  have below := (all_iff.mp here).2
  have new : ∀ modifier : Option Modifier,
      Node.All Scripted { withChildren kind.token [base, script] with modifier } := fun modifier =>
    scripted_one rfl (by cases kind <;> simp [withChildren, ScriptKind.token]) here here'
  unfold attach
  dsimp only
  split
  · rename_i inner sup held
    rw [held] at below
    split
    · exact scripted_both rfl rfl (below inner (by simp)) here' (below sup (by simp))
    · exact new _
  · rename_i inner old held
    rw [held] at below
    have first := below inner (by simp)
    have second := below old (by simp)
    split
    · exact scripted_both rfl rfl first second here'
    · split
      · refine scripted_one rfl (.inr rfl) first (scripted_braces ?_)
        exact List.forall_mem_cons.mpr ⟨second, List.forall_mem_singleton.mpr here'⟩
      · exact new _
  · rename_i inner sub old held
    rw [held] at below
    split
    · refine scripted_both rfl rfl (below inner (by simp)) (below sub (by simp)) (scripted_braces ?_)
      exact List.forall_mem_cons.mpr ⟨below old (by simp), List.forall_mem_singleton.mpr here'⟩
    · exact new _
  · exact new _

theorem scriptCount?_prime {token : String} (prime : token ∈ primes) : scriptCount? token = none := by
  simp only [primes, List.mem_cons, List.not_mem_nil, or_false] at prime
  rcases prime with rfl | rfl | rfl | rfl <;> rfl

theorem scripted_lengthen {script : Node} (here : script.All Scripted) :
    (lengthen script).All Scripted := by
  have stroke : Script.stroke.All Scripted := scripted_leaf rfl
  have stroked : (Node.braces [script, Script.stroke]).All Scripted :=
    scripted_braces (List.forall_mem_cons.mpr ⟨here, List.forall_mem_singleton.mpr stroke⟩)
  have below := (all_iff.mp here).2
  unfold lengthen
  split
  · rename_i none
    split
    · rename_i next found
      refine scripted_of_name (scriptCount?_prime (nextPrime?_mem found).2) ?_
      simp [childList, none]
    · exact stroked
  · rename_i children held
    simp only [childList, held, Option.getD_some] at below
    split
    · rename_i group
      have longer : ∀ child ∈ children ++ [Script.stroke], child.All Scripted :=
        List.forall_mem_append.mpr ⟨below, List.forall_mem_singleton.mpr stroke⟩
      have name : scriptCount? script.token = none := by rw [beq_iff_eq.mp group]; rfl
      refine scripted_of_name name ?_
      simp only [childList, Option.getD_some]
      cases found : children.getLast?.filter Node.isLeaf with
      | none => exact longer
      | some last =>
        obtain ⟨last?, leaf⟩ := Option.filter_eq_some_iff.mp found
        simp only [Option.bind_some]
        cases prime : nextPrime? last.token with
        | none => exact longer
        | some next =>
          refine List.forall_mem_append.mpr ⟨fun child mem => ?_, List.forall_mem_singleton.mpr ?_⟩
          · exact below child (List.dropLast_subset _ mem)
          · refine scripted_of_name (scriptCount?_prime (nextPrime?_mem prime).2) ?_
            exact (all_iff.mp (below last (List.mem_of_getLast? last?))).2
    · exact stroked

theorem scripted_addPrime {node : Node} (here : node.All Scripted) :
    (addPrime node).All Scripted := by
  have stroke : Script.stroke.All Scripted := scripted_leaf rfl
  have new : (Node.withChildren "^" [node, Script.stroke]).All Scripted :=
    scripted_one rfl (.inr rfl) here stroke
  have below := (all_iff.mp here).2
  unfold addPrime
  dsimp only
  split
  · rename_i base script held
    rw [held] at below
    have first := below base (by simp)
    have second := below script (by simp)
    split
    · rename_i sup
      exact scripted_one rfl (.inr (beq_iff_eq.mp sup)) first (scripted_lengthen second)
    · split
      · exact scripted_both rfl rfl first second stroke
      · exact new
  · rename_i base sub sup held
    rw [held] at below
    split
    · rename_i both
      exact scripted_both rfl (beq_iff_eq.mp both) (below base (by simp)) (below sub (by simp))
        (scripted_lengthen (below sup (by simp)))
    · exact new
  · exact new

end Script

/-! ## All nodes -/

theorem scriptCount?_closing {text : String} (known : Wait.Closing (some text)) :
    scriptCount? text = none := by
  rcases known text rfl with named | ends
  · simp only [List.mem_cons, List.not_mem_nil, or_false] at named
    rcases named with rfl | rfl | rfl | rfl <;> rfl
  · obtain ⟨rest, split⟩ := List.isPrefixOf_iff_prefix.mp ends
    exact scriptCount?_command split.symm

theorem scriptCount?_styleCommand {style switch : String}
    (known : Reader.styleCommand? style = some switch) : scriptCount? switch = none := by
  unfold Reader.styleCommand? at known
  split at known <;> cases known <;> rfl

/-- A command is not named for scripts, as these are tokens of their own. -/
theorem scriptCount?_of_command {symbols : SymbolTable} {text : String} {shape : Option Shape}
    (started : .command shape = Start.of symbols text) (other : text ≠ Script.both) :
    scriptCount? text = none := by
  refine scriptCount?_eq_none ?_ ?_ other
  · rintro rfl
    cases started
  · rintro rfl
    cases started

theorem scripted_stripped {closing : String} {nodes : List Node}
    (all : ∀ node ∈ nodes, node.All Scripted) :
    ∀ node ∈ Reader.stripped closing nodes, node.All Scripted := by
  unfold Reader.stripped
  split
  · exact fun node mem => all node (List.dropLast_subset _ mem)
  · exact all

/-- The scripts of a decoration go on the operator, which takes the place of their base. -/
theorem scripted_decoration {decoration base : Node} (here : decoration.All Scripted)
    (base' : base.All Scripted) :
    (withChildren (Reader.sideParts decoration).1 (base :: (Reader.sideParts decoration).2)).All
      Scripted := by
  have below := (all_iff.mp here).2
  have alone : (withChildren Word.braces [base]).All Scripted :=
    scripted_braces (List.forall_mem_singleton.mpr base')
  unfold Reader.sideParts
  split
  · rename_i only held
    simp only [childList, held, Option.getD_some, List.forall_mem_singleton] at below
    split
    · obtain ⟨counted, scripts⟩ := all_iff.mp below
      refine .intro ?_ ?_
      · intro count named
        have length := counted count named
        change (base :: only.childList.drop 1).length = count
        have positive : 1 ≤ count := by
          unfold scriptCount? at named
          split at named <;> cases named <;> omega
        rw [List.length_cons, List.length_drop]
        omega
      · exact List.forall_mem_cons.mpr ⟨base', fun child mem => scripts child (List.mem_of_mem_drop mem)⟩
    · exact alone
  · exact alone

theorem scripted_sideset {left right operator : Node} (left' : left.All Scripted)
    (right' : right.All Scripted) (operator' : operator.All Scripted) :
    (sideset left right operator).All Scripted := by
  have core : operator.sideOperator.All Scripted := .intro (all_iff.mp operator').1 (all_iff.mp operator').2
  have phantom : (withChildren "\\vphantom" [operator.sideOperator]).All Scripted :=
    scripted_withChildren rfl (List.forall_mem_singleton.mpr core)
  exact scripted_withChildren rfl (List.forall_mem_cons.mpr
    ⟨scripted_decoration left' phantom, List.forall_mem_singleton.mpr (scripted_decoration right' core)⟩)

theorem scripted_builds {symbols : SymbolTable} {text : String} {start : Start}
    {held : List (List Node)} {node : Node} (other : text ≠ Script.both)
    (started : start = Start.of symbols text)
    (all : ∀ nodes ∈ held, ∀ node ∈ nodes, node.All Scripted)
    (built : Builds symbols text start held node) : node.All Scripted := by
  cases built with
  | leaf => exact scripted_leaf (scriptCount?_of_command started other)
  | nodes => exact scripted_withChildren (scriptCount?_of_command started other) (all _ (by simp))
  | reversed =>
    refine scripted_withChildren (scriptCount?_of_command started other) fun node mem => ?_
    exact all _ (by simp) node (List.mem_reverse.mp mem)
  | negated known leaf =>
    obtain ⟨rest, start⟩ := Reader.negated?_start known
    exact scripted_leaf (scriptCount?_command start)
  | bareArrow =>
    exact scripted_withChildren (scriptCount?_of_command started other)
      (List.forall_mem_singleton.mpr (scripted_collapse (all _ (by simp))))
  | @labelledArrow label args =>
    refine scripted_withChildren (scriptCount?_of_command started other)
      (List.forall_mem_cons.mpr ⟨scripted_braces (scripted_stripped (all label (by simp))), ?_⟩)
    exact List.forall_mem_singleton.mpr (scripted_collapse (all args (by simp)))
  | space =>
    exact scripted_of_name (scriptCount?_of_command started other) (List.forall_mem_nil _)
  | @style args value =>
    obtain ⟨counted, below⟩ := all_iff.mp (scripted_collapse (all args (by simp)))
    exact .intro counted below
  | rawText =>
    exact scripted_of_name (scriptCount?_of_command started other) (List.forall_mem_nil _)
  | @link args target =>
    exact scripted_of_name (scriptCount?_of_command started other) (all args (by simp))
  | @squareRoot args =>
    exact scripted_withChildren rfl
      (List.forall_mem_singleton.mpr (scripted_collapse (all args (by simp))))
  | @emptyIndex index args =>
    exact scripted_withChildren rfl
      (List.forall_mem_singleton.mpr (scripted_collapse (all args (by simp))))
  | @indexedRoot index args =>
    exact scripted_withChildren rfl (List.forall_mem_cons.mpr
      ⟨scripted_collapse (all args (by simp)),
        List.forall_mem_singleton.mpr (scripted_collapse (scripted_stripped (all index (by simp))))⟩)
  | @root index args =>
    exact scripted_withChildren rfl (List.forall_mem_cons.mpr
      ⟨scripted_collapse (all args (by simp)),
        List.forall_mem_singleton.mpr (scripted_collapse (scripted_stripped (all index (by simp))))⟩)
  | @table body =>
    exact scripted_withChildren (scriptCount?_of_command started other)
      (scripted_stripped (all body (by simp)))
  | @generalFraction thickness style args =>
    exact scripted_of_name rfl (all args (by simp))
  | @styledFraction thickness style args switch delimiter attributes known =>
    refine scripted_braces (List.forall_mem_cons.mpr
      ⟨scripted_leaf (scriptCount?_styleCommand known), List.forall_mem_singleton.mpr ?_⟩)
    exact scripted_of_name rfl (all args (by simp))
  | sideScripts =>
    have here := all _ (List.mem_singleton_self _)
    exact scripted_sideset (here _ (by simp)) (here _ (by simp)) (here _ (by simp))
  | skew =>
    have here := all _ (List.mem_singleton_self _)
    exact scripted_of_name rfl (List.forall_mem_singleton.mpr (here _ (by simp)))
  | @environment nodes body alignment closed taken =>
    have here := all nodes (by simp)
    refine scripted_of_name (scriptCount?_command (String.toList_append ..)) fun node mem => ?_
    exact here node (List.dropLast_subset _ (Alignment.take_subset taken mem))
  | @leftRight children delimiter closed => exact scripted_of_name rfl (all children (by simp))
  | group => exact scripted_braces (scripted_stripped (all _ (by simp)))

theorem scripted_base {stack : List Node} (above : ∀ node ∈ stack, node.All Scripted) :
    (stack.head?.getD (.braces [])).All Scripted := by
  cases stack with
  | nil => exact scripted_braces (List.forall_mem_nil _)
  | cons first rest => exact above first List.mem_cons_self

theorem scripted_tail {stack : List Node} (above : ∀ node ∈ stack, node.All Scripted) :
    ∀ node ∈ stack.tail, node.All Scripted :=
  fun node mem => above node (List.mem_of_mem_tail mem)

theorem scripted_unbraced {nodes : List Node} (all : ∀ node ∈ nodes, node.All Scripted) :
    ∀ node ∈ unbraced nodes, node.All Scripted := by
  unfold unbraced
  split
  · split
    · exact (all_iff.mp (all _ (List.mem_singleton_self _))).2
    · exact all
  · exact all

theorem scripted_makes {symbols : SymbolTable} {terminator : Option String} {text : String}
    {stack : List Node} {held : List (List Node)} {start : Start} {progress : Progress}
    (other : text ≠ Script.both) (started : start = Start.of symbols text)
    (above : ∀ node ∈ stack, node.All Scripted)
    (all : ∀ nodes ∈ held, ∀ node ∈ nodes, node.All Scripted)
    (made : Makes symbols terminator text stack start held progress) :
    ∀ node ∈ progress.stack, node.All Scripted := by
  cases made with
  | push built =>
    exact List.forall_mem_cons.mpr ⟨scripted_builds other started all built, above⟩
  | @negation args =>
    exact List.forall_mem_cons.mpr ⟨scripted_collapse (all args (by simp)),
      List.forall_mem_cons.mpr ⟨scripted_leaf rfl, above⟩⟩
  | @color all' nodes marker value parted =>
    obtain ⟨front, last⟩ := parted.forall_iff.mp (all all' (by simp))
    refine List.forall_mem_append.mpr ⟨last, List.forall_mem_cons.mpr ⟨?_, above⟩⟩
    exact scripted_of_name (scriptCount?_of_command started other) front
  | @table all' nodes marker parted =>
    obtain ⟨front, last⟩ := parted.forall_iff.mp (all all' (by simp))
    refine List.forall_mem_append.mpr ⟨last, List.forall_mem_cons.mpr ⟨?_, above⟩⟩
    exact scripted_withChildren (scriptCount?_of_command started other) (scripted_unbraced front)
  | @infixFraction fraction held' all' nodes marker delimiter attributes parted =>
    obtain ⟨front, last⟩ := parted.forall_iff.mp (all all' (by simp))
    refine List.forall_mem_append.mpr ⟨last, List.forall_mem_singleton.mpr ?_⟩
    have numerator : ∀ node ∈ stack.reverse, node.All Scripted :=
      fun node mem => above node (List.mem_reverse.mp mem)
    exact scripted_of_name rfl (List.forall_mem_cons.mpr
      ⟨scripted_collapse numerator, List.forall_mem_singleton.mpr (scripted_collapse front)⟩)
  | @script kind args =>
    exact List.forall_mem_cons.mpr ⟨Script.scripted_attach kind none (scripted_base above)
      (scripted_collapse (all args (by simp))), scripted_tail above⟩
  | @limits kind limits operator below args above' =>
    subst above'
    obtain ⟨operator', below'⟩ := List.forall_mem_cons.mp (List.forall_mem_cons.mp above).2
    exact List.forall_mem_cons.mpr
      ⟨Script.scripted_attach kind _ operator' (scripted_collapse (all args (by simp))), below'⟩
  | prime =>
    exact List.forall_mem_cons.mpr
      ⟨Script.scripted_addPrime (scripted_base above), scripted_tail above⟩

theorem scripted_invariant (symbols : SymbolTable) :
    Invariant symbols (· ≠ Script.both) (·.All Scripted) where
  makes other started above all _ made := scripted_makes other started above all made
  marker _ known := scripted_of_name (scriptCount?_closing known) (List.forall_mem_nil _)

namespace Formula

/-- Whatever the tokens are, as long as none of them is the name of a node with both kinds of
scripts, every script node of what is parsed holds a base and its scripts, at any depth. -/
theorem ofTokens?_scripted {symbols : SymbolTable} {tokens : List Token} {stop : Nat}
    {nodes : List Node} (unnamed : ∀ token ∈ tokens, token.text ≠ "_^")
    (read : ofTokens? symbols tokens stop = .ok nodes) : ∀ node ∈ nodes, node.All Node.Scripted :=
  ofTokens?_meets (scripted_invariant symbols) unnamed read

/-- A prime and an exponent join the subscript before them. -/
theorem ofTokens?_scripted_prime :
    ∃ nodes, ofTokens? .known (Source.tokens .known "x_1'^2") 6 = .ok nodes ∧
      ∀ node ∈ nodes, node.All Node.Scripted := by
  let scripts : List Node := [.leaf "x", .leaf "1", .braces [.leaf "\\prime", .leaf "2"]]
  have given : ofTokens? .known (Source.tokens .known "x_1'^2") 6 =
      .ok [.withChildren "_^" scripts] := by
    decide +kernel
  exact ⟨_, given, ofTokens?_scripted (by decide +kernel) given⟩

end Formula

end FormulaMarkup

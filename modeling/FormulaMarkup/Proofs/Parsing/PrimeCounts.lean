import FormulaMarkup.Proofs.Parsing.ScriptRuns
import Mathlib.Algebra.GroupWithZero.Nat
import Mathlib.Logic.Function.Iterate

/-!
How many strokes a superscript has. An apostrophe gives the last node a stroke more, whatever its
superscript is: a leaf of primes, a full chain, a group, any other node, or nothing yet. Main statement:
any number of apostrophes adds just as many strokes, and leaves all else as it is.
-/
namespace FormulaMarkup

namespace Script

def isPrimeLeaf (node : Node) : Bool := node.isLeaf && isPrime node.token

/-- The number of strokes of a leaf of primes; none for any other node. -/
def leafCount (node : Node) : Nat := if isPrimeLeaf node then primes.idxOf node.token + 1 else 0

/-- What a superscript consists of: what it holds if it is a group, else itself. -/
def parts (script : Node) : List Node :=
  match script.children with
  | some children => if script.is Word.braces then children else [script]
  | none => [script]

def strokeCount (script : Node) : Nat := ((parts script).map leafCount).sum

/-- What there is in a superscript besides primes. -/
def others (script : Node) : List Node := (parts script).filter fun node => !isPrimeLeaf node

/-! ## One stroke more -/

theorem parts_leaf {script : Node} (leaf : script.children = none) : parts script = [script] := by
  rw [parts, leaf]

theorem parts_group {script : Node} {children : List Node} (held : script.children = some children)
    (group : script.is Word.braces = true) : parts script = children := by
  rw [parts, held]
  exact if_pos group

theorem parts_other {script : Node} {children : List Node} (held : script.children = some children)
    (other : script.is Word.braces = false) : parts script = [script] := by
  rw [parts, held]
  simp [other]

/-- Behind a full chain or any other node, a stroke is a leaf of its own. -/
theorem lengthenLast_full {script : Node}
    (full : script.isLeaf = true → nextPrime? script.token = none) :
    lengthenLast [script] = [script, stroke] := by
  unfold lengthenLast
  cases leaf : script.isLeaf with
  | true => simp [Option.filter_some, leaf, full leaf]
  | false => simp [Option.filter_some, leaf]

theorem parts_lengthen (script : Node) : parts (lengthen script) = lengthenLast (parts script) := by
  unfold lengthen
  cases held : script.children with
  | none =>
    have leaf : script.isLeaf = true := by rw [Node.isLeaf, held]; rfl
    rw [parts_leaf held]
    cases found : nextPrime? script.token with
    | none => exact (lengthenLast_full fun _ => found).symm
    | some next =>
      have grown : lengthenLast [script] = [{ script with token := next }] := by
        simp [lengthenLast, Option.filter_some, leaf, found]
      rw [grown, held]
      exact parts_leaf rfl
  | some children =>
    have inner : script.isLeaf = false := by rw [Node.isLeaf, held]; rfl
    dsimp only
    cases group : script.is Word.braces with
    | true =>
      rw [if_pos rfl, parts_group held group]
      exact parts_group rfl group
    | false =>
      rw [if_neg Bool.false_ne_true, parts_other held group]
      exact (lengthenLast_full fun leaf => Bool.noConfusion (inner.symm.trans leaf)).symm

theorem strokes_of_prime {node : Node} (prime : isPrimeLeaf node = true) :
    strokes node = List.replicate (leafCount node) stroke := by
  rw [leafCount, if_pos prime]
  exact if_pos prime

theorem strokes_of_other {node : Node} (other : isPrimeLeaf node = false) : strokes node = [node] :=
  if_neg (Bool.not_eq_true _ ▸ other)

theorem countP_strokes (node : Node) : (strokes node).countP isPrimeLeaf = leafCount node := by
  cases prime : isPrimeLeaf node with
  | true =>
    rw [strokes_of_prime prime, List.countP_replicate]
    rfl
  | false => simp [strokes_of_other prime, prime, leafCount]

theorem filter_strokes (node : Node) :
    (strokes node).filter (fun node => !isPrimeLeaf node) = [node].filter fun node => !isPrimeLeaf node := by
  cases prime : isPrimeLeaf node with
  | true =>
    have one : isPrimeLeaf stroke = true := rfl
    simp [strokes_of_prime prime, prime, one]
  | false => rw [strokes_of_other prime]

/-- The strokes of a superscript and what there is besides them, told by its strokes one by one. -/
theorem strokeCount_eq (script : Node) :
    strokeCount script = ((parts script).flatMap strokes).countP isPrimeLeaf := by
  rw [strokeCount, List.countP_flatMap]
  simp only [Function.comp_def, countP_strokes]

theorem others_eq (script : Node) :
    others script = ((parts script).flatMap strokes).filter fun node => !isPrimeLeaf node := by
  rw [others, List.filter_flatMap]
  induction parts script with
  | nil => rfl
  | cons part rest ih =>
    rw [List.flatMap_cons, filter_strokes, ← ih, ← List.filter_append, List.singleton_append]

theorem strokeCount_lengthen (script : Node) : strokeCount (lengthen script) = strokeCount script + 1 := by
  rw [strokeCount_eq, strokeCount_eq, parts_lengthen, strokes_lengthenLast, List.countP_append]
  rfl

theorem others_lengthen (script : Node) : others (lengthen script) = others script := by
  rw [others_eq, others_eq, parts_lengthen, strokes_lengthenLast, List.filter_append]
  exact List.append_nil _

/-! ## Many strokes -/

theorem strokeCount_iterate (count : Nat) (script : Node) :
    strokeCount (lengthen^[count] script) = strokeCount script + count := by
  induction count with
  | zero => rfl
  | succ count ih => rw [Function.iterate_succ_apply', strokeCount_lengthen, ih, Nat.add_assoc]

theorem others_iterate (count : Nat) (script : Node) : others (lengthen^[count] script) = others script := by
  induction count with
  | zero => rfl
  | succ count ih => rw [Function.iterate_succ_apply', others_lengthen, ih]

theorem chain_iterate (count : Nat) : lengthen^[count] stroke = Node.collapse (chain count) := by
  induction count with
  | zero => rfl
  | succ count ih => rw [Function.iterate_succ_apply', ih, lengthen_chain]

/-! ## Strokes on a node -/

/-- A base and the scripts on it. -/
structure Anatomy where
  base : Node
  low : Option Node
  high : Option Node

/-- A node taken apart. One that is no node of scripts is all base. -/
def anatomy (node : Node) : Anatomy :=
  match node.childList with
  | [base, script] =>
    if node.is "_" then ⟨base, some script, none⟩
    else if node.is "^" then ⟨base, none, some script⟩
    else ⟨node, none, none⟩
  | [base, low, high] => if node.is both then ⟨base, some low, some high⟩ else ⟨node, none, none⟩
  | _ => ⟨node, none, none⟩

/-- With a stroke more in the superscript. -/
def Anatomy.stroked (anatomy : Anatomy) : Anatomy :=
  { anatomy with high := some (anatomy.high.elim stroke lengthen) }

variable {node base low high : Node}

theorem anatomy_plain (other : Node.scriptCount? node.token = none) : anatomy node = ⟨node, none, none⟩ := by
  obtain ⟨sub, sup, both'⟩ := is_eq_false_of_plain other
  unfold anatomy
  split
  · simp [sub, sup]
  · simp [both']
  · rfl

theorem anatomy_sub (name : node.token = "_") (held : node.childList = [base, low]) :
    anatomy node = ⟨base, some low, none⟩ := by
  simp [anatomy, held, is_of_token name]

theorem anatomy_sup (name : node.token = "^") (held : node.childList = [base, high]) :
    anatomy node = ⟨base, none, some high⟩ := by
  simp [anatomy, held, is_of_token name]

theorem anatomy_both (name : node.token = both) (held : node.childList = [base, low, high]) :
    anatomy node = ⟨base, some low, some high⟩ := by
  simp [anatomy, held, is_of_token name]

/-- A prime goes to the superscript, or becomes one, and the node stays a node of scripts. -/
theorem addPrime_bearing (bearing : Bearing node) :
    Bearing (addPrime node) ∧ anatomy (addPrime node) = (anatomy node).stroked := by
  unfold addPrime
  cases bearing with
  | @plain other =>
    obtain ⟨sub, sup, both'⟩ := is_eq_false_of_plain other
    have new : Bearing (.withChildren "^" [node, stroke]) ∧
        anatomy (.withChildren "^" [node, stroke]) = (anatomy node).stroked := by
      rw [anatomy_plain other]
      exact ⟨.sup rfl rfl, anatomy_sup rfl rfl⟩
    dsimp only
    split
    · simpa [sub, sup] using new
    · simpa [both'] using new
    · exact new
  | @sub base low name held =>
    rw [held, anatomy_sub name held]
    simp only [is_of_token name]
    exact ⟨.both rfl rfl, anatomy_both rfl rfl⟩
  | @sup base high name held =>
    rw [held, anatomy_sup name held]
    simp only [is_of_token name]
    exact ⟨.sup name rfl, anatomy_sup name rfl⟩
  | @both base low high name held =>
    rw [held, anatomy_both name held]
    simp only [is_of_token name]
    exact ⟨.both name rfl, anatomy_both name rfl⟩

theorem stroked_iterate (count : Nat) (anatomy : Anatomy) :
    Anatomy.stroked^[count + 1] anatomy =
      { anatomy with high := some (lengthen^[count] (anatomy.high.elim stroke lengthen)) } := by
  induction count with
  | zero => rfl
  | succ count ih =>
    rw [Function.iterate_succ_apply', ih, Function.iterate_succ_apply']
    rfl

/-- As many strokes are added as there are primes. -/
theorem addPrime_iterate (count : Nat) (bearing : Bearing node) :
    anatomy (addPrime^[count] node) = Anatomy.stroked^[count] (anatomy node) := by
  suffices both : Bearing (addPrime^[count] node) ∧
      anatomy (addPrime^[count] node) = Anatomy.stroked^[count] (anatomy node) from both.2
  induction count with
  | zero => exact ⟨bearing, rfl⟩
  | succ count ih =>
    obtain ⟨bearing', same⟩ := addPrime_bearing ih.1
    rw [Function.iterate_succ_apply', Function.iterate_succ_apply', ← ih.2]
    exact ⟨bearing', same⟩

end Script

/-! ## Reading apostrophes -/

namespace Reader

open Wait
open Script (Anatomy addPrime anatomy chain lengthen others stroke strokeCount)

variable {terminator : Option String} {c : Cursor} {rest : List Token}

/-- An apostrophe puts a prime on the last node, or on an empty group if there is none. -/
theorem apostrophe_step (symbols : SymbolTable) (consumed : Bool) (stack : List Node)
    (known : Closing terminator) (before : Before c ["'"] rest) :
    ∃ after, after.tokens = rest ∧ after.pending = none ∧ ∀ budget,
      sequence symbols terminator .unbounded (budget + 1) consumed stack c =
        sequence symbols terminator .unbounded budget true
          (addPrime (stack.head?.getD (.braces [])) :: stack.tail) after := by
  obtain ⟨mark, tail, left, text, behind⟩ := before.next
  obtain ⟨tokens, texts, split⟩ := behind.words
  obtain rfl := List.map_eq_nil_iff.mp texts
  refine ⟨skip c mark tail, split, behind.free, fun budget => ?_⟩
  have other : some mark.text ≠ terminator := text ▸ known.ne_of (by decide) (by decide)
  have read : Reader.token symbols (nestedAt symbols budget) terminator mark stack (skip c mark tail) =
      .ok (⟨addPrime (stack.head?.getD (.braces [])) :: stack.tail, false⟩, skip c mark tail) := by
    rw [token_prime text]
    rfl
  exact (turn_token before.free left other read).trans rfl

/-- All of a row of apostrophes goes to the same node. -/
theorem apostrophes_run (symbols : SymbolTable) (consumed : Bool) (stack : List Node)
    (known : Closing terminator) {count : Nat} (before : Before c (List.replicate (count + 1) "'") rest) :
    ∃ after, after.tokens = rest ∧ after.pending = none ∧ ∀ budget,
      sequence symbols terminator .unbounded (budget + (count + 1)) consumed stack c =
        sequence symbols terminator .unbounded budget true
          (addPrime^[count + 1] (stack.head?.getD (.braces [])) :: stack.tail) after := by
  induction count generalizing c consumed stack with
  | zero => exact apostrophe_step symbols consumed stack known before
  | succ count ih =>
    rw [List.replicate_succ, ← List.singleton_append] at before
    obtain ⟨tokens, texts, first⟩ := before.split
    obtain ⟨mid, left, free, step⟩ := apostrophe_step symbols consumed stack known first
    obtain ⟨after, left', free', run⟩ := ih true _ ⟨free, tokens, texts, left⟩
    refine ⟨after, left', free', fun budget => ?_⟩
    rw [← Nat.add_assoc, step, run]
    rfl

/-- Apostrophes behind nodes: the nodes before the last one are left as they are, and the last one becomes a
node of scripts with the same base and subscript. Its superscript keeps what was there besides primes, in
order, and has just as many strokes more as there are apostrophes. Where there was none it is a chain. -/
theorem sequence_apostrophes (symbols : SymbolTable) {terminator : Option String} (known : Closing terminator)
    {nodes : List Node} (scripted : ∀ node ∈ nodes, node.Scripted) {count : Nat} (some' : 1 ≤ count)
    {c : Cursor} {rest : List Token} (before : Before c (List.replicate count "'") rest) (consumed : Bool) :
    let last := anatomy (nodes.getLast?.getD (.braces []))
    ∃ node script after, after.tokens = rest ∧ after.pending = none ∧
      (∀ budget, sequence symbols terminator .unbounded (budget + count) consumed nodes.reverse c =
        sequence symbols terminator .unbounded budget true (nodes.dropLast ++ [node]).reverse after) ∧
      anatomy node = { last with high := some script } ∧
      others script = last.high.elim [] others ∧
      strokeCount script = last.high.elim 0 strokeCount + count ∧
      (last.high = none → script = .collapse (chain (count - 1))) := by
  intro last
  obtain ⟨more, rfl⟩ : ∃ more, count = more + 1 := ⟨count - 1, by omega⟩
  have bearing : Script.Bearing (nodes.getLast?.getD (.braces [])) := by
    refine Script.bearing_of_scripted ?_
    cases held : nodes.getLast? with
    | none => exact nofun
    | some node => exact scripted node (List.mem_of_getLast? held)
  obtain ⟨after, left, free, run⟩ := apostrophes_run symbols consumed nodes.reverse known before
  refine ⟨addPrime^[more + 1] (nodes.getLast?.getD (.braces [])),
    lengthen^[more] (last.high.elim stroke lengthen), after, left, free, fun budget => ?_, ?_, ?_, ?_, ?_⟩
  · rw [run, List.head?_reverse, List.tail_reverse, List.reverse_concat]
  · rw [Script.addPrime_iterate _ bearing, Script.stroked_iterate]
  · rw [Script.others_iterate]
    cases last.high with
    | none => rfl
    | some script => exact Script.others_lengthen script
  · rw [Script.strokeCount_iterate]
    cases last.high with
    | none =>
      have one : strokeCount stroke = 1 := by decide
      rw [Option.elim_none, Option.elim_none, one]
      omega
    | some script =>
      rw [Option.elim_some, Option.elim_some, Script.strokeCount_lengthen]
      omega
  · intro bare
    rw [bare]
    exact Script.chain_iterate more

/-- Five strokes behind an exponent that stands with a subscript. -/
theorem sequence_apostrophes_five :
    let base : Node := .withChildren "_^" [.leaf "x", .leaf "1", .braces [.leaf "2", .leaf "\\dprime"]]
    let tokens := Source.tokens .known "'''''+"
    let c : Cursor := { tokens, last := ⟨0, 0⟩, stop := 6 }
    let last := anatomy base
    Closing none ∧ (∀ node ∈ [.leaf "a", base], node.Scripted) ∧ 1 ≤ 5 ∧
      Before c (List.replicate 5 "'") (tokens.drop 5) ∧
      ∃ node script after, after.tokens = tokens.drop 5 ∧ after.pending = none ∧
        (∀ budget, sequence .known none .unbounded (budget + 5) true [.leaf "a", base].reverse c =
          sequence .known none .unbounded budget true ([.leaf "a", base].dropLast ++ [node]).reverse after) ∧
        anatomy node = { last with high := some script } ∧
        others script = last.high.elim [] others ∧
        strokeCount script = last.high.elim 0 strokeCount + 5 ∧
        (last.high = none → script = .collapse (chain (5 - 1))) := by
  intro base tokens c last
  have scripted : ∀ node ∈ [.leaf "a", base], node.Scripted := by
    refine List.forall_mem_cons.mpr ⟨nofun, List.forall_mem_singleton.mpr ?_⟩
    rintro count ⟨⟩
    rfl
  have before : Before c (List.replicate 5 "'") (tokens.drop 5) :=
    ⟨rfl, tokens.take 5, by decide +kernel, (List.take_append_drop 5 tokens).symm⟩
  exact ⟨closing_none, scripted, by decide, before,
    sequence_apostrophes .known closing_none scripted (by decide) before true⟩

end Reader

end FormulaMarkup

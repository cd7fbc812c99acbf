import FormulaMarkup.Formula.Script
import Mathlib.Data.List.Basic

/-!
Chains of primes. Strokes are added to a superscript one by one: the last leaf of primes grows until it has
four strokes, and then there is a new one. Main statement: strokes that are all there is make a chain of
leaves with four strokes each and one leaf for the rest; behind anything else they come in the order in
which they are added.
-/
namespace FormulaMarkup.Script

/-- The strokes that a node stands for if it is a leaf of primes; else the node itself. -/
def strokes (node : Node) : List Node :=
  if node.isLeaf && isPrime node.token then List.replicate (primes.idxOf node.token + 1) stroke
  else [node]

/-- A list of nodes with a stroke more at its end. -/
def lengthenLast (nodes : List Node) : List Node :=
  let lengthened := (nodes.getLast?.filter Node.isLeaf).bind fun last =>
    (nextPrime? last.token).map fun next => nodes.dropLast ++ [{ last with token := next }]
  lengthened.getD (nodes ++ [stroke])

theorem lengthen_braces (nodes : List Node) :
    lengthen (.braces nodes) = .braces (lengthenLast nodes) := rfl

theorem strokes_stroke : strokes stroke = [stroke] := rfl

theorem strokes_braces (nodes : List Node) : strokes (.braces nodes) = [.braces nodes] := rfl

theorem strokes_replicate (count : Nat) :
    (List.replicate count stroke).flatMap strokes = List.replicate count stroke := by
  induction count with
  | zero => rfl
  | succ count ih => rw [List.replicate_succ, List.flatMap_cons, ih, strokes_stroke, List.singleton_append]

theorem nextPrime?_listed {token next : String} (found : nextPrime? token = some next) :
    (token, next) ∈ primes.zip (primes.drop 1) := by
  obtain ⟨front, back, split, -⟩ := List.lookup_eq_some_iff.mp found
  rw [split]
  simp

theorem strokes_leaf {node : Node} (leaf : node.isLeaf = true) (prime : isPrime node.token = true) :
    strokes node = List.replicate (primes.idxOf node.token + 1) stroke := by
  rw [strokes, leaf, prime]
  rfl

/-- The next leaf of primes has one stroke more. -/
theorem strokes_next {node : Node} {next : String} (leaf : node.isLeaf = true)
    (found : nextPrime? node.token = some next) :
    strokes { node with token := next } = strokes node ++ [stroke] := by
  have steps : ∀ entry ∈ primes.zip (primes.drop 1), isPrime entry.1 = true ∧ isPrime entry.2 = true ∧
      primes.idxOf entry.2 = primes.idxOf entry.1 + 1 := by
    decide
  obtain ⟨before, behind, more⟩ := steps _ (nextPrime?_listed found)
  have grown : strokes { node with token := next } = List.replicate (primes.idxOf next + 1) stroke :=
    strokes_leaf leaf behind
  rw [grown, strokes_leaf leaf before, more, ← List.replicate_succ']

/-- A stroke is added behind all that is there. -/
theorem strokes_lengthenLast (nodes : List Node) :
    (lengthenLast nodes).flatMap strokes = nodes.flatMap strokes ++ [stroke] := by
  unfold lengthenLast
  cases last : nodes.getLast?.filter Node.isLeaf with
  | none => simp [strokes_stroke]
  | some node =>
    obtain ⟨last?, leaf⟩ := Option.filter_eq_some_iff.mp last
    cases found : nextPrime? node.token with
    | none => simp [found, strokes_stroke]
    | some next =>
      have whole : nodes = nodes.dropLast ++ [node] := (List.dropLast_append_getLast? node last?).symm
      have grown := strokes_next leaf found
      conv => rhs; rw [whole]
      simp [found, grown]

/-- The leaves of primes for one stroke and more. -/
def chain (more : Nat) : List Node :=
  List.replicate (more / 4) (.leaf "\\qprime") ++ [.leaf (primes.getD (more % 4) "")]

theorem lengthenLast_leaf (front : List Node) (token : String) :
    lengthenLast (front ++ [.leaf token]) =
      match nextPrime? token with
      | some next => front ++ [.leaf next]
      | none => front ++ [.leaf token] ++ [stroke] := by
  have leaf : (Node.leaf token).isLeaf = true := rfl
  unfold lengthenLast
  simp only [List.getLast?_concat, List.dropLast_concat, Option.filter_some, leaf, if_true]
  cases found : nextPrime? token with
  | none => simp [Node.leaf, found]
  | some next => simp [Node.leaf, found]

theorem nextPrime?_getD : ∀ index < 4, nextPrime? (primes.getD index "") =
    if index = 3 then none else some (primes.getD (index + 1) "") := by
  decide

theorem lengthenLast_chain (more : Nat) : lengthenLast (chain more) = chain (more + 1) := by
  unfold chain
  rw [lengthenLast_leaf, nextPrime?_getD _ (Nat.mod_lt _ (by decide))]
  by_cases full : more % 4 = 3
  · have whole : (more + 1) / 4 = more / 4 + 1 := by omega
    have none : (more + 1) % 4 = 0 := by omega
    rw [if_pos full, whole, none, full, List.replicate_succ']
    rfl
  · have same : (more + 1) / 4 = more / 4 := by omega
    have next : (more + 1) % 4 = more % 4 + 1 := by omega
    rw [if_neg full, same, next]

/-- A chain of several leaves is a group. -/
theorem collapse_chain {more : Nat} (long : 4 ≤ more) :
    Node.collapse (chain more) = .braces (chain more) := by
  have some' : more / 4 = more / 4 - 1 + 1 := by omega
  unfold chain
  rw [some', List.replicate_succ, List.cons_append]
  cases List.replicate (more / 4 - 1) (Node.leaf "\\qprime") with
  | nil => rfl
  | cons first front => rfl

theorem lengthen_chain (more : Nat) :
    lengthen (Node.collapse (chain more)) = Node.collapse (chain (more + 1)) := by
  by_cases long : 4 ≤ more
  · rw [collapse_chain long, lengthen_braces, lengthenLast_chain, collapse_chain (by omega)]
  · have short : ∀ more < 4, lengthen (Node.collapse (chain more)) = Node.collapse (chain (more + 1)) := by
      decide
    exact short more (by omega)

theorem strokes_chain (more : Nat) : (chain more).flatMap strokes = List.replicate (more + 1) stroke := by
  induction more with
  | zero => rfl
  | succ more ih => rw [← lengthenLast_chain, strokes_lengthenLast, ih, ← List.replicate_succ']

end FormulaMarkup.Script

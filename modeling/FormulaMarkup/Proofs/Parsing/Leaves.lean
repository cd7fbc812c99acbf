import FormulaMarkup.Proofs.Parsing.PrimeChains

/-!
Leaves of trees: how often a tree has a leaf with a token, at any depth. Scripts and primes take
trees apart and put them together again, with the same leaves but for the primes themselves.
-/
namespace FormulaMarkup

namespace Node

mutual

/-- How many leaves a tree has with a token. -/
def leaves (name : String) : Node → Nat
  | ⟨token, none, _, _, _, _, _⟩ => if token = name then 1 else 0
  | ⟨_, some children, _, _, _, _, _⟩ => leavesOf name children

def leavesOf (name : String) : List Node → Nat
  | [] => 0
  | first :: rest => leaves name first + leavesOf name rest

end

variable {name : String} {node : Node} {nodes : List Node}

/-! ## Lists of nodes -/

@[simp] theorem leavesOf_nil (name : String) : leavesOf name [] = 0 := by
  rw [leavesOf]

@[simp] theorem leavesOf_cons (name : String) (first : Node) (rest : List Node) :
    leavesOf name (first :: rest) = leaves name first + leavesOf name rest := by
  rw [leavesOf]

@[simp] theorem leavesOf_append (name : String) (front back : List Node) :
    leavesOf name (front ++ back) = leavesOf name front + leavesOf name back := by
  induction front with
  | nil => simp
  | cons first rest ih =>
    rw [List.cons_append, leavesOf_cons, leavesOf_cons, ih, Nat.add_assoc]

@[simp] theorem leavesOf_reverse (name : String) (nodes : List Node) :
    leavesOf name nodes.reverse = leavesOf name nodes := by
  induction nodes with
  | nil => rfl
  | cons first rest ih =>
    rw [List.reverse_cons, leavesOf_append, ih, leavesOf_cons, leavesOf_cons, leavesOf_nil]
    omega

theorem leavesOf_take_add_drop (name : String) (count : Nat) (nodes : List Node) :
    leavesOf name (nodes.take count) + leavesOf name (nodes.drop count) = leavesOf name nodes := by
  rw [← leavesOf_append, List.take_append_drop]

/-! ## Single nodes -/

/-- Only the token and the children of a node count. -/
theorem leaves_congr {other : Node} (token : node.token = other.token)
    (children : node.children = other.children) : node.leaves name = other.leaves name := by
  obtain ⟨_, held, _, _, _, _, _⟩ := node
  obtain ⟨_, held', _, _, _, _, _⟩ := other
  obtain rfl : held = held' := children
  obtain rfl := token
  cases held with
  | none => rw [leaves, leaves]
  | some children => rw [leaves, leaves]

theorem leaves_held {children : List Node} (held : node.children = some children) :
    node.leaves name = leavesOf name children := by
  obtain ⟨_, _, _, _, _, _, _⟩ := node
  obtain rfl := held
  rw [leaves]

theorem leaves_leaf_eq (leaf : node.children = none) :
    node.leaves name = if node.token = name then 1 else 0 := by
  obtain ⟨_, _, _, _, _, _, _⟩ := node
  obtain rfl := leaf
  rw [leaves]

@[simp] theorem leaves_leaf (token : String) :
    (leaf token).leaves name = if token = name then 1 else 0 :=
  leaves_leaf_eq rfl

@[simp] theorem leaves_withChildren (token : String) (children : List Node) :
    (withChildren token children).leaves name = leavesOf name children :=
  leaves_held rfl

@[simp] theorem leaves_braces (children : List Node) :
    (braces children).leaves name = leavesOf name children :=
  leaves_held rfl

@[simp] theorem leaves_setAttribute (node : Node) (key value : String) :
    (node.setAttribute key value).leaves name = node.leaves name :=
  leaves_congr rfl rfl

@[simp] theorem leaves_collapse (nodes : List Node) :
    (collapse nodes).leaves name = leavesOf name nodes := by
  unfold collapse
  split
  · simp
  · simp

/-- The first node and the others, with an empty group in place of the first one if there is none. -/
theorem leavesOf_head_tail (name : String) (stack : List Node) :
    leaves name (stack.head?.getD (braces [])) + leavesOf name stack.tail = leavesOf name stack := by
  cases stack with
  | nil => simp
  | cons first rest => simp

/-- A node of another name has its leaves below it. -/
theorem leaves_of_name (other : node.token ≠ name) :
    node.leaves name = leavesOf name node.childList := by
  cases held : node.children with
  | none => simp [leaves_leaf_eq held, other, childList, held]
  | some children => simp [leaves_held held, childList, held]

/-- A node that holds something has its leaves below it. -/
theorem leaves_of_childList {first : Node} {rest : List Node} (held : node.childList = first :: rest) :
    node.leaves name = leavesOf name (first :: rest) := by
  cases inside : node.children with
  | none =>
    rw [childList, inside] at held
    cases held
  | some children =>
    rw [childList, inside] at held
    rw [leaves_held inside]
    exact congrArg (leavesOf name) held

end Node

/-! ## Scripts and primes -/

namespace Script

open Node

variable {name : String}

/-- A script that is put on a node loses nothing. -/
theorem leaves_attach (kind : ScriptKind) (modifier : Option Modifier) (base script : Node) :
    (attach kind modifier base script).leaves name = base.leaves name + script.leaves name := by
  have new : ∀ modifier : Option Modifier,
      Node.leaves name { withChildren kind.token [base, script] with modifier } =
        base.leaves name + script.leaves name := by
    intro modifier
    refine Eq.trans (leaves_held rfl) ?_
    simp
  unfold attach
  dsimp only
  split
  · rename_i inner sup held
    split
    · rw [leaves_of_childList held]
      refine Eq.trans (leaves_held rfl) ?_
      simp
      omega
    · exact new _
  · rename_i inner old held
    split
    · rw [leaves_of_childList held]
      refine Eq.trans (leaves_held rfl) ?_
      simp
      omega
    · split
      · rw [leaves_of_childList held]
        refine Eq.trans (leaves_held rfl) ?_
        simp
        omega
      · exact new _
  · rename_i inner sub old held
    split
    · rw [leaves_of_childList held]
      refine Eq.trans (leaves_held rfl) ?_
      simp
      omega
    · exact new _
  · exact new _

theorem nextPrime?_mem {token next : String} (found : nextPrime? token = some next) :
    token ∈ primes ∧ next ∈ primes := by
  obtain ⟨first, second⟩ := List.of_mem_zip (nextPrime?_listed found)
  exact ⟨first, List.mem_of_mem_drop second⟩

/-- A leaf that is a prime is no leaf of another name. -/
theorem leaves_of_prime {node : Node} (other : isPrime name = false) (prime : node.token ∈ primes)
    (leaf : node.children = none) : node.leaves name = 0 := by
  rw [leaves_leaf_eq leaf, if_neg]
  intro same
  rw [isPrime, ← same, List.contains_iff_mem.mpr prime] at other
  cases other

theorem leaves_stroke (other : isPrime name = false) : stroke.leaves name = 0 :=
  leaves_of_prime other (by decide) rfl

theorem leaves_lengthen (other : isPrime name = false) (script : Node) :
    (lengthen script).leaves name = script.leaves name := by
  have none := leaves_stroke other
  have stroked : (Node.braces [script, stroke]).leaves name = script.leaves name := by simp [none]
  unfold lengthen
  split
  · rename_i leaf
    split
    · rename_i next found
      obtain ⟨before, behind⟩ := nextPrime?_mem found
      rw [leaves_of_prime other before leaf]
      exact leaves_of_prime other behind leaf
    · exact stroked
  · rename_i children held
    split
    · rw [leaves_held held]
      refine Eq.trans (leaves_held rfl) ?_
      have longer : leavesOf name (children ++ [stroke]) = leavesOf name children := by simp [none]
      cases found : children.getLast?.filter Node.isLeaf with
      | none => exact longer
      | some last =>
        obtain ⟨last?, leaf⟩ := Option.filter_eq_some_iff.mp found
        have leaf := Option.isNone_iff_eq_none.mp leaf
        simp only [Option.bind_some]
        cases prime : nextPrime? last.token with
        | none => exact longer
        | some next =>
          obtain ⟨before, behind⟩ := nextPrime?_mem prime
          obtain ⟨front, rfl⟩ := List.getLast?_eq_some_iff.mp last?
          have old : last.leaves name = 0 := leaves_of_prime other before leaf
          have new : Node.leaves name { last with token := next } = 0 :=
            leaves_of_prime other behind leaf
          simp [old, new]
    · exact stroked

theorem leaves_addPrime (other : isPrime name = false) (node : Node) :
    (addPrime node).leaves name = node.leaves name := by
  have none := leaves_stroke other
  have new : (Node.withChildren "^" [node, stroke]).leaves name = node.leaves name := by simp [none]
  unfold addPrime
  dsimp only
  split
  · rename_i base script held
    have longer := leaves_lengthen other script
    split
    · rw [leaves_of_childList held]
      refine Eq.trans (leaves_held rfl) ?_
      simp [longer]
    · split
      · rw [leaves_of_childList held]
        refine Eq.trans (leaves_held rfl) ?_
        simp [none]
      · exact new
  · rename_i base sub sup held
    have longer := leaves_lengthen other sup
    split
    · rw [leaves_of_childList held]
      refine Eq.trans (leaves_held rfl) ?_
      simp [longer]
    · exact new
  · exact new

end Script

end FormulaMarkup

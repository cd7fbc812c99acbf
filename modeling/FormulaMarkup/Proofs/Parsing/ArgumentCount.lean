import FormulaMarkup.Proofs.Parsing.Parts
import FormulaMarkup.Symbol.Known

/-!
How many nodes an argument list has. A sequence with a limit ends with the first token behind which it is
full. As a token can put two nodes on the stack, there may then be one node too many: where the last token is
a negation that does not become one leaf, and where all that follows is read up to a node that is named like
the token that ends the sequence around, but is no leaf. Main statement: these are the only two ways, and what
a command with a fixed number of arguments holds is what such a sequence returns.
-/
namespace FormulaMarkup

/-- How the nodes that a sequence with a limit returns fit the limit. -/
inductive Fills (terminator : Option String) (count : Nat) (nodes : List Node) : Prop
  | exact (full : nodes.length = count)
  /-- A negation is the last of the nodes, and counts twice. -/
  | negation {front : List Node} {target : Node} (last : nodes = front ++ [.leaf "\\not", target])
      (full : front.length + 1 = count)
  /-- A node that stands in for the token that ends the sequence around comes on top. -/
  | standIn {front : List Node} {ending : Node} (last : nodes = front ++ [ending])
      (full : front.length = count) (holds : ending.isLeaf = false)
      (named : some ending.token = terminator)

namespace Shape

/-- How many arguments a command has if its node holds these and nothing else. -/
def argumentCount? : Shape → Option Nat
  | nodes count => some count
  | reversed => some 2
  | link => some 1
  | _ => none

/-- The arguments of a command in the order in which its node holds them. -/
def arranged : Shape → List Node → List Node
  | reversed, args => args.reverse
  | _, args => args

end Shape

/-- How much a stack grows with one token. -/
inductive Grows (terminator : Option String) (stack : List Node) : List Node → Prop
  | most {grown : List Node} (one : grown.length ≤ stack.length + 1) : Grows terminator stack grown
  | negation {target : Node} : Grows terminator stack (target :: .leaf "\\not" :: stack)
  | marked {ending node : Node} {below : List Node} (named : some ending.token = terminator)
      (most : below.length ≤ stack.length) : Grows terminator stack (ending :: node :: below)

namespace Grows

variable {symbols : SymbolTable} {terminator : Option String} {text : String} {stack : List Node}
  {start : Start} {held : List (List Node)} {progress : Progress}

/-- A command that reads all that follows puts its node and the one that ends the sequence on a stack. -/
theorem finishing {all nodes : List Node} {marker : Option Node} {node : Node} {below : List Node}
    (parted : Reader.Parted terminator all nodes marker) (most : below.length ≤ stack.length) :
    Grows terminator stack (marker.toList ++ node :: below) := by
  cases marker with
  | none => exact .most (Nat.succ_le_succ most)
  | some ending => exact .marked (parted.ends ending rfl) most

theorem of_makes (made : Makes symbols terminator text stack start held progress) :
    Grows terminator stack progress.stack := by
  cases made with
  | push => exact .most (Nat.le_refl _)
  | negation => exact .negation
  | color parted => exact finishing parted (Nat.le_refl _)
  | table parted => exact finishing parted (Nat.le_refl _)
  | infixFraction parted => exact finishing parted (Nat.zero_le _)
  | script | prime =>
    refine .most ?_
    simp only [List.length_cons, List.length_tail]
    omega
  | limits above =>
    refine .most ?_
    simp only [above, List.length_cons]
    omega

/-- A stack that was not full before its last token fits the limit when it is closed. -/
theorem close_fills {grown nodes : List Node} {c after : Cursor} {count : Nat} {consumed : Bool}
    (grows : Grows terminator stack grown) (space : stack.length < count)
    (closed : Reader.close terminator (.nodes count) consumed grown c = .ok (nodes, after)) :
    Fills terminator count nodes := by
  rcases Reader.close_ok closed with ⟨⟨⟩, -⟩ | ⟨_, marker, rest, ⟨⟩, rfl, -, full, rfl, -⟩ |
    ⟨_, ⟨⟩, unmarked, full, rfl, -⟩
  · refine .exact ?_
    rw [List.length_reverse]
    cases grows with
    | most one =>
      simp only [List.length_cons] at one
      omega
    | negation =>
      simp only [List.length_cons] at full ⊢
      omega
    | marked _ most =>
      simp only [List.length_cons] at full ⊢
      omega
  · cases grows with
    | most one =>
      refine .exact ?_
      rw [List.length_reverse]
      omega
    | @negation target =>
      rw [List.length_cons, List.length_cons] at full
      rcases Nat.eq_or_lt_of_le full with both | one
      · exact .exact (by simp [both])
      · have last : (target :: .leaf "\\not" :: stack).reverse =
            stack.reverse ++ [.leaf "\\not", target] := by simp
        refine .negation last ?_
        rw [List.length_reverse]
        omega
    | @marked ending node below named most =>
      rw [List.length_cons, List.length_cons] at full
      rcases Nat.eq_or_lt_of_le full with both | one
      · exact .exact (by simp [both])
      · refine .standIn List.reverse_cons ?_ ?_ named
        · rw [List.length_reverse, List.length_cons]
          omega
        · have other := unmarked ending rfl
          simpa [Node.marks, named] using other

end Grows

namespace Reader

variable {symbols : SymbolTable} {terminator : Option String} {count budget : Nat} {c after : Cursor}

/-- The stack is not full while a sequence goes on, so that only the last token can make it too long. -/
theorem sequence_fills {consumed : Bool} {stack nodes : List Node} (space : stack.length < count)
    (given : sequence symbols terminator (.nodes count) budget consumed stack c = .ok (nodes, after)) :
    Fills terminator count nodes := by
  induction budget generalizing consumed stack c with
  | zero => cases given
  | succ budget ih =>
    cases sequence_ok given with
    | owed _ unbounded | closed _ _ _ unbounded => cases unbounded
    | ended _ _ closed =>
      exact Grows.close_fills (.most (Nat.le_succ _)) space closed
    | last _ _ _ read _ closed =>
      obtain ⟨held, -, made⟩ := token_ok read
      exact Grows.close_fills (.of_makes made) space closed
    | more _ _ _ _ open' again =>
      refine ih ?_ again
      simpa [Limit.reachedBy] using (Bool.or_eq_false_iff.mp open').2

/-- What a command with a fixed number of arguments has read to its node. -/
theorem token_fills {token : Token} {stack : List Node} {progress : Progress} {shape : Shape}
    (starts : Start.of symbols token.text = .command (some shape))
    (counted : shape.argumentCount? = some count) (some' : 0 < count)
    (given : Reader.token symbols (nestedAt symbols budget) terminator token stack c =
      .ok (progress, after)) :
    ∃ args node, Fills terminator count args ∧ progress = ⟨node :: stack, false⟩ ∧
      node.token = token.text ∧ node.children = some (shape.arranged args) := by
  have empty : ([] : List Node).length < count := some'
  obtain ⟨held, read, made⟩ := token_ok given
  rw [starts] at read made
  cases shape with
  | nodes | reversed =>
    cases counted
    cases made with
    | push built =>
      cases built
      obtain ⟨_, _, _, ⟨⟩, bounded, -⟩ := readParts_cons_ok read
      exact ⟨_, _, sequence_fills empty bounded, rfl, rfl, rfl⟩
  | link =>
    cases counted
    cases made with
    | push built =>
      cases built
      obtain ⟨_, _, _, ⟨⟩, -, behind⟩ := readParts_cons_ok read
      obtain ⟨_, _, _, ⟨⟩, bounded, -⟩ := readParts_cons_ok behind
      exact ⟨_, _, sequence_fills empty bounded, rfl, rfl, rfl⟩
  | _ => cases counted

/-- A sequence with a limit returns as many nodes as the limit says, or one more in one of the two ways. A
command with a fixed number of arguments puts one node on the stack, which holds what such a sequence has
returned for that number. -/
theorem bounded_calls (symbols : SymbolTable) (budget : Nat) (terminator : Option String) (c after : Cursor) :
    (∀ count nodes, 0 < count →
      sequence symbols terminator (.nodes count) budget false [] c = .ok (nodes, after) →
      Fills terminator count nodes) ∧
    ∀ token stack progress shape count, Start.of symbols token.text = .command (some shape) →
      shape.argumentCount? = some count → 0 < count →
      Reader.token symbols (nestedAt symbols budget) terminator token stack c = .ok (progress, after) →
      ∃ args node, Fills terminator count args ∧ progress = ⟨node :: stack, false⟩ ∧
        node.token = token.text ∧ node.children = some (shape.arranged args) := by
  constructor
  · intro count nodes some' read
    have empty : ([] : List Node).length < count := some'
    exact sequence_fills empty read
  · intro token stack progress shape count starts counted some' given
    exact token_fills starts counted some' given

/-- An accent and its argument, which is the only child of the accent. -/
theorem bounded_calls_accent :
    let accent : Token := ⟨"\\hat", ⟨0, 4⟩⟩
    let c : Cursor := { tokens := [⟨"x", ⟨5, 6⟩⟩, ⟨"y", ⟨6, 7⟩⟩], last := ⟨0, 4⟩, stop := 7 }
    ∃ progress after args node,
      Reader.token .known (nestedAt .known 3) none accent [] c = .ok (progress, after) ∧
        Fills none 1 args ∧ progress = ⟨[node], false⟩ ∧ node.token = "\\hat" ∧
        node.children = some args := by
  intro accent c
  have starts : Start.of .known accent.text = .command (some (.nodes 1)) := by decide +kernel
  have accepted : (Reader.token .known (nestedAt .known 3) none accent [] c).isOk = true := by
    decide +kernel
  cases given : Reader.token .known (nestedAt .known 3) none accent [] c with
  | error failure =>
    rw [given] at accepted
    cases accepted
  | ok result =>
    obtain ⟨args, node, filled, made, named, held⟩ :=
      (bounded_calls .known 3 none c result.2).2 accent [] _ (.nodes 1) 1 starts rfl Nat.one_pos given
    exact ⟨_, _, args, node, rfl, filled, made, named, held⟩

/-- Two nodes are read for one argument, as a negation does not look at the limit. -/
theorem negation_exceeds_limit :
    let c : Cursor := { tokens := [⟨"\\not", ⟨4, 8⟩⟩, ⟨"x", ⟨9, 10⟩⟩], last := ⟨0, 4⟩, stop := 10 }
    (sequence .known none (.nodes 1) 3 false [] c).map (·.1) = .ok [.leaf "\\not", .leaf "x"] ∧
      Formula.parse .known "\\hat\\not x" =
        .ok [.withChildren "\\hat" [.leaf "\\not", .leaf "x"]] := by
  constructor
  · decide +kernel
  · decide +kernel

end Reader

end FormulaMarkup

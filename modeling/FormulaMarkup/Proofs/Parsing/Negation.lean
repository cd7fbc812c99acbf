import FormulaMarkup.Proofs.Parsing.NodeArguments
import FormulaMarkup.Symbol.Known

/-!
What a negation makes of its argument. The parser looks a negated relation up by its name, and asks neither
whether the relation itself is a symbol nor what its leaf carries. Main statement: where that makes no
difference, a negation becomes one leaf for a relation that is a symbol, and otherwise keeps its argument as it
is; and where it does make one, it still becomes one leaf.
-/
namespace FormulaMarkup

open Wait

/-- A leaf that stands for nothing but a relation, and the symbol for the negated relation. -/
inductive Negates (symbols : SymbolTable) : Node → String → Prop
  | equal : Negates symbols (.leaf "=") "\\ne"
  | less : Negates symbols (.leaf "<") "\\nless"
  | greater : Negates symbols (.leaf ">") "\\ngtr"
  | command {name : String} (known : symbols.contains ("\\" ++ name))
      (negated : symbols.contains ("\\n" ++ name)) : Negates symbols (.leaf ("\\" ++ name)) ("\\n" ++ name)

/-- The nodes of a negation, the newest first. -/
inductive Negation (symbols : SymbolTable) (target : Node) : List Node → Prop
  | replaced {negated : String} (negates : Negates symbols target negated) :
      Negation symbols target [.leaf negated]
  | kept (other : ∀ negated, ¬ Negates symbols target negated) :
      Negation symbols target [target, .leaf "\\not"]

/-- If there is a negated relation for the name of a leaf, the leaf is one of a symbol and carries nothing. -/
structure Plain (symbols : SymbolTable) (target : Node) : Prop where
  known : ∀ name, target.isLeaf → target.token = "\\" ++ name → symbols.contains ("\\n" ++ name) →
    symbols.contains ("\\" ++ name)
  bare : ∀ negated, target.isLeaf → Reader.negated? symbols target.token = some negated →
    target = .leaf target.token

namespace Reader

variable {symbols : SymbolTable} {nested : Nested} {terminator : Option String} {stack : List Node}
  {target : Node} {text negated : String} {words : List String} {c after : Cursor} {span : Span}

/-- A negated relation is found by the name of the relation, except for three characters. -/
theorem negated?_iff : negated? symbols text = some negated ↔
    (text = "=" ∧ negated = "\\ne") ∨ (text = "<" ∧ negated = "\\nless") ∨ (text = ">" ∧ negated = "\\ngtr") ∨
      ∃ name, text = "\\" ++ name ∧ negated = "\\n" ++ name ∧ symbols.contains negated := by
  have start (name : String) : ("\\" ++ name).toList = '\\' :: name.toList := by simp
  constructor
  · intro found
    unfold negated? at found
    split at found
    · exact .inl ⟨rfl, (Option.some.inj found).symm⟩
    · exact .inr (.inl ⟨rfl, (Option.some.inj found).symm⟩)
    · exact .inr (.inr (.inl ⟨rfl, (Option.some.inj found).symm⟩))
    · split at found
      · rename_i name split
        dsimp only at found
        split at found
        · rename_i known
          obtain rfl := Option.some.inj found
          refine .inr (.inr (.inr ⟨String.ofList name, ?_, ?_, known⟩))
          · rw [← String.toList_inj, split, start, String.toList_ofList]
          · rw [← String.toList_inj]
            simp
        · cases found
      · cases found
  · rintro (⟨rfl, rfl⟩ | ⟨rfl, rfl⟩ | ⟨rfl, rfl⟩ | ⟨name, rfl, rfl, known⟩)
    · rfl
    · rfl
    · rfl
    · have same : String.ofList ('\\' :: 'n' :: name.toList) = "\\n" ++ name := by
        rw [← String.toList_inj]
        simp
      have other (c : Char) (apart : c ≠ '\\') : "\\" ++ name ≠ String.ofList [c] := by
        intro alike
        have lists := congrArg String.toList alike
        rw [start, String.toList_ofList] at lists
        exact apart (List.cons.inj lists).1.symm
      rw [negated?, start]
      · simp only [same, known, if_true]
      · exact other '=' (by decide)
      · exact other '<' (by decide)
      · exact other '>' (by decide)

/-- The negated relation that a negation becomes, if it becomes one. -/
def replacement? (symbols : SymbolTable) (target : Node) : Option String :=
  if target.isLeaf then negated? symbols target.token else none

theorem replacement?_iff : replacement? symbols target = some negated ↔
    target.isLeaf ∧ negated? symbols target.token = some negated := by
  unfold replacement?
  split <;> simp [*]

theorem negates_of_plain (plain : Plain symbols target) (found : replacement? symbols target = some negated) :
    Negates symbols target negated := by
  obtain ⟨leaf, found⟩ := replacement?_iff.mp found
  rw [plain.bare negated leaf found]
  obtain ⟨text, rfl⟩ | ⟨text, rfl⟩ | ⟨text, rfl⟩ | ⟨name, text, rfl, known⟩ := negated?_iff.mp found
  · rw [text]
    exact .equal
  · rw [text]
    exact .less
  · rw [text]
    exact .greater
  · rw [text]
    exact .command (plain.known name leaf text known) known

theorem replacement?_of_negates (negates : Negates symbols target negated) :
    replacement? symbols target = some negated := by
  rw [replacement?_iff, negated?_iff]
  cases negates with
  | equal => exact ⟨rfl, .inl ⟨rfl, rfl⟩⟩
  | less => exact ⟨rfl, .inr (.inl ⟨rfl, rfl⟩)⟩
  | greater => exact ⟨rfl, .inr (.inr (.inl ⟨rfl, rfl⟩))⟩
  | command _ known => exact ⟨rfl, .inr (.inr (.inr ⟨_, rfl, rfl, known⟩))⟩

/-- An argument for which there is no negated relation leaves nothing to ask. -/
theorem plain_of_none (none : replacement? symbols target = none) : Plain symbols target := by
  constructor
  · intro name leaf text known
    have found := replacement?_iff.mpr ⟨leaf, negated?_iff.mpr (.inr (.inr (.inr ⟨name, text, rfl, known⟩)))⟩
    rw [none] at found
    cases found
  · intro negated leaf negates
    have found := replacement?_iff.mpr ⟨leaf, negates⟩
    rw [none] at found
    cases found

theorem token_not : Reader.token symbols nested terminator ⟨"\\not", span⟩ stack =
    argument nested terminator >>= fun target =>
      match replacement? symbols target with
      | some negated => pure ⟨.leaf negated :: stack, false⟩
      | none => pure ⟨target :: .leaf "\\not" :: stack, false⟩ := by
  have shape : Shape.of? "\\not" = some .negation := by decide +kernel
  rw [token_shape shape (by decide : "\\not" ≠ "\\middle")]
  unfold command shape?
  rw [shape]
  rfl

/-- An argument of which the name is all that counts. -/
theorem token_not_plain (plain : Plain symbols target)
    (given : argument nested terminator c = .ok (target, after)) :
    ∃ nodes, Negation symbols target nodes ∧
      Reader.token symbols nested terminator ⟨"\\not", span⟩ stack c = .ok (⟨nodes ++ stack, false⟩, after) := by
  rw [token_not, bind_ok given]
  cases found : replacement? symbols target with
  | some negated => exact ⟨_, .replaced (negates_of_plain plain found), rfl⟩
  | none =>
    refine ⟨_, .kept fun negated negates => ?_, rfl⟩
    rw [replacement?_of_negates negates] at found
    cases found

/-- A negation is sound. Where the name of its argument is all that counts, it becomes one leaf for a relation
that is a symbol and has a symbol for its negation, and is otherwise kept with its argument. Else the argument
is a leaf whose name has a negated symbol, and goes lost in it. -/
theorem negation_sound (symbols : SymbolTable) (nested : Nested) (terminator : Option String) (span : Span)
    (stack : List Node) (c : Cursor) :
    (∀ failure, argument nested terminator c = .error failure →
      Reader.token symbols nested terminator ⟨"\\not", span⟩ stack c = .error failure) ∧
    ∀ target after, argument nested terminator c = .ok (target, after) →
      (Plain symbols target → ∃ nodes, Negation symbols target nodes ∧
        Reader.token symbols nested terminator ⟨"\\not", span⟩ stack c = .ok (⟨nodes ++ stack, false⟩, after)) ∧
      (¬ Plain symbols target → ∃ negated, target.isLeaf ∧ negated? symbols target.token = some negated ∧
        Reader.token symbols nested terminator ⟨"\\not", span⟩ stack c =
          .ok (⟨.leaf negated :: stack, false⟩, after)) := by
  constructor
  · intro failure refused
    rw [token_not]
    exact bind_error refused
  · intro target after given
    refine ⟨fun plain => token_not_plain plain given, fun exotic => ?_⟩
    cases found : replacement? symbols target with
    | none => exact absurd (plain_of_none found) exotic
    | some negated =>
      obtain ⟨leaf, named⟩ := replacement?_iff.mp found
      refine ⟨negated, leaf, named, ?_⟩
      rw [token_not, bind_ok given, found]
      rfl

theorem negation_sound_sim :
    let symbols : SymbolTable := ⟨[("\\sim", 0x223C), ("\\nsim", 0x2241)]⟩
    let c : Cursor := { tokens := [⟨"\\sim", ⟨4, 8⟩⟩], last := ⟨0, 4⟩, stop := 8 }
    ∃ nodes, Negation symbols (.leaf "\\sim") nodes ∧
      Reader.token symbols (nestedWithin symbols 2) none ⟨"\\not", ⟨0, 4⟩⟩ [] c =
        .ok (⟨nodes, false⟩, { tokens := [], last := ⟨4, 8⟩, stop := 8 }) := by
  intro symbols c
  have plain : Plain symbols (.leaf "\\sim") := by
    have known : symbols.contains "\\sim" = true := by decide +kernel
    exact ⟨fun name _ text _ => (show "\\sim" = "\\" ++ name from text) ▸ known, fun _ _ _ => rfl⟩
  have given : argument (nestedWithin symbols 2) none c =
      .ok (.leaf "\\sim", { tokens := [], last := ⟨4, 8⟩, stop := 8 }) := by
    decide +kernel
  obtain ⟨-, sound⟩ := negation_sound symbols (nestedWithin symbols 2) none ⟨0, 4⟩ [] c
  obtain ⟨nodes, negation, read⟩ := (sound _ _ given).1 plain
  exact ⟨nodes, negation, (List.append_nil nodes) ▸ read⟩

theorem bare_of_negates (negates : Negates symbols target negated) : target = .leaf target.token ∧
    (target.token ∈ ["=", "<", ">"] ∨ symbols.contains target.token) := by
  cases negates with
  | equal => exact ⟨rfl, .inl (by decide)⟩
  | less => exact ⟨rfl, .inl (by decide)⟩
  | greater => exact ⟨rfl, .inl (by decide)⟩
  | command known => exact ⟨rfl, .inr known⟩

theorem replaced_of_one {nodes : List Node} (negation : Negation symbols target nodes) (one : nodes.length = 1) :
    ∃ negated, Negates symbols target negated := by
  cases negation with
  | replaced negates => exact ⟨_, negates⟩
  | kept => cases one

/-- A command that is no symbol becomes a letter, and a relation loses its style. -/
theorem negation_unsound :
    (Formula.parse .known "\\not\\u" = .ok [.leaf "\\nu"] ∧
      ¬ Negation .known (.leaf "\\u") [.leaf "\\nu"]) ∧
    let styled := (Node.leaf "=").setAttribute "style" "color:red"
    Formula.parse .known "\\style\x7bcolor:red\x7d=" = .ok [styled] ∧
      Formula.parse .known "\\not\\style\x7bcolor:red\x7d=" = .ok [.leaf "\\ne"] ∧
      ¬ Negation .known styled [.leaf "\\ne"] := by
  -- all that depends on the table is evaluated at once
  have runs : (Formula.parse .known "\\not\\u" = .ok [.leaf "\\nu"] ∧
      ¬ ("\\u" ∈ ["=", "<", ">"] ∨ SymbolTable.known.contains "\\u")) ∧
      Formula.parse .known "\\style\x7bcolor:red\x7d=" = .ok [(Node.leaf "=").setAttribute "style" "color:red"] ∧
      Formula.parse .known "\\not\\style\x7bcolor:red\x7d=" = .ok [.leaf "\\ne"] := by
    decide +kernel
  obtain ⟨⟨letter, other⟩, relation, bare⟩ := runs
  refine ⟨⟨letter, ?_⟩, relation, bare, ?_⟩
  · intro negation
    obtain ⟨negated, negates⟩ := replaced_of_one negation rfl
    exact other (bare_of_negates negates).2
  · intro negation
    obtain ⟨negated, negates⟩ := replaced_of_one negation rfl
    have styled : (Node.leaf "=").setAttribute "style" "color:red" ≠ .leaf "=" := by decide
    exact styled (bare_of_negates negates).1

/-- A source that is a negation of one node. -/
theorem ofTokens?_negation (one : OneNode symbols words target) (plain : Plain symbols target)
    {tokens : List Token} (texts : tokens.map (·.text) = words) (stop : Nat) :
    ∃ nodes, Negation symbols target nodes ∧
      Formula.ofTokens? symbols (⟨"\\not", span⟩ :: tokens) stop = .ok nodes.reverse := by
  obtain ⟨after, given, done, free⟩ := one.argument closing_none (by simp) (before_behindFirst texts)
  obtain ⟨nodes, negation, read⟩ := token_not_plain plain given
  refine ⟨nodes, negation, ofTokens?_first ?_ done free⟩
  rw [List.append_nil] at read
  exact read

end Reader
end FormulaMarkup

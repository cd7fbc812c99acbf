import FormulaMarkup.Proofs.Parsing.Invariants

/-!
Nodes that are named for a closing token. The leaf that a sequence leaves for the token that closes it has
the name of that token, and so has an environment that is called so. Where there is no such environment, a
node of this name is such a leaf. This is shown for any names that no other node has, and so for the closing
delimiter, and for all tokens that close a pair of delimiters or an environment.
-/
namespace FormulaMarkup

open Wait
open Node (collapse withChildren)

/-! ## Names that are reserved -/

/-- The name of the node of an environment. -/
def environmentNode (header : String) : String :=
  "\\" ++ (Word.inside? Word.environmentStart header).getD ""

/-- The names of the nodes that are made of others and not named for their token. -/
def madeNames : List String := [
  Word.braces, "\\sqrt", "\\root", "\\genfrac", "\\sideset", "\\skew", "\\left", "\\frac", "_", "^", Script.both]

/-- Names that only leaves and environments can have. -/
structure Reserved (symbols : SymbolTable) (named : String → Prop) : Prop where
  bare : ∀ {text}, named text → Start.of symbols text = .command none
  unmade : ∀ made ∈ madeNames, ¬ named made

/-- A token that starts nothing and has no shape has no parts. -/
theorem start_bare (symbols : SymbolTable) {text : String} (fresh : Word.begins Word.environmentStart text = false)
    (other : text ∉ ["\\left", Word.openBrace, "_", "^", "'"]) (shapeless : Shape.of? text = none)
    (plain : Word.begins "\\math" text = false) : Start.of symbols text = .command none := by
  simp only [List.mem_cons, List.not_mem_nil, or_false, not_or] at other
  obtain ⟨left, opens, sub, sup, prime⟩ := other
  unfold Start.of Reader.shape?
  rw [fresh, if_neg Bool.false_ne_true, if_neg left, if_neg opens, if_neg sub, if_neg sup, if_neg prime, shapeless,
    plain]
  rfl

theorem start_right (symbols : SymbolTable) : Start.of symbols "\\right" = .command none :=
  start_bare symbols (by decide +kernel) (by decide) (by decide +kernel) (by decide +kernel)

theorem reserved_right (symbols : SymbolTable) : Reserved symbols (· = "\\right") where
  bare same := same ▸ start_right symbols
  unmade := by decide

/-! ## Leaves -/

/-- Only a leaf has one of these names. -/
def LeafNamed (named : String → Prop) (node : Node) : Prop := named node.token → node.children = none

section Nodes

variable {symbols : SymbolTable} {named : String → Prop} {text : String} {start : Start}
  {held : List (List Node)} {node : Node} {nodes : List Node}

theorem leafNamed_leaf (leaf : node.children = none) : LeafNamed named node := fun _ => leaf

theorem leafNamed_other (other : ¬ named node.token) : LeafNamed named node :=
  fun same => absurd same other

variable (reserved : Reserved symbols named)

include reserved

theorem leafNamed_made (made : node.token ∈ madeNames) : LeafNamed named node :=
  leafNamed_other (reserved.unmade _ made)

theorem leafNamed_collapse (all : ∀ node ∈ nodes, LeafNamed named node) : LeafNamed named (collapse nodes) := by
  unfold collapse
  split
  · exact all _ (List.mem_singleton_self _)
  · exact leafNamed_made reserved (by decide : Word.braces ∈ madeNames)

omit reserved in
theorem Script.token_attach (kind : ScriptKind) (modifier : Option Modifier) (base script : Node) :
    (Script.attach kind modifier base script).token ∈ madeNames := by
  have sup : "^" ∈ madeNames := by decide
  have both : Script.both ∈ madeNames := by decide
  have new : kind.token ∈ madeNames := by
    cases kind with
    | sub => exact (by decide : "_" ∈ madeNames)
    | sup => exact sup
  unfold Script.attach
  dsimp only
  split
  · split
    · exact both
    · exact new
  · split
    · exact both
    · split
      · exact sup
      · exact new
  · split
    · exact both
    · exact new
  · exact new

omit reserved in
theorem Script.token_addPrime (node : Node) : (Script.addPrime node).token ∈ madeNames := by
  have sup : "^" ∈ madeNames := by decide
  have both : Script.both ∈ madeNames := by decide
  unfold Script.addPrime
  dsimp only
  split
  · split
    · rename_i named
      exact (beq_iff_eq.mp named).symm ▸ sup
    · split
      · exact both
      · exact sup
  · split
    · rename_i named
      exact (beq_iff_eq.mp named).symm ▸ both
    · exact sup
  · exact sup

variable (other : ¬ named (environmentNode text)) (started : start = Start.of symbols text)
  (all : ∀ nodes ∈ held, ∀ node ∈ nodes, LeafNamed named node)

include started

/-- A token with parts has another name. -/
theorem leafNamed_started (parts : start ≠ .command none) (token : node.token = text) :
    LeafNamed named node :=
  leafNamed_other fun same => parts (started.trans (reserved.bare (token ▸ same)))

include other all

theorem leafNamed_builds (built : Builds symbols text start held node) : LeafNamed named node := by
  cases built with
  | leaf | negated => exact leafNamed_leaf rfl
  | space | rawText => exact leafNamed_leaf rfl
  | nodes | reversed | bareArrow | labelledArrow | link | table =>
    exact leafNamed_started reserved started nofun rfl
  | @style args value => exact leafNamed_collapse reserved (all args (by simp))
  | squareRoot | emptyIndex => exact leafNamed_made reserved (by decide : "\\sqrt" ∈ madeNames)
  | indexedRoot | root => exact leafNamed_made reserved (by decide : "\\root" ∈ madeNames)
  | generalFraction => exact leafNamed_made reserved (by decide : "\\genfrac" ∈ madeNames)
  | styledFraction | group => exact leafNamed_made reserved (by decide : Word.braces ∈ madeNames)
  | sideScripts => exact leafNamed_made reserved (by decide : "\\sideset" ∈ madeNames)
  | skew => exact leafNamed_made reserved (by decide : "\\skew" ∈ madeNames)
  | environment => exact leafNamed_other other
  | leftRight => exact leafNamed_made reserved (by decide : "\\left" ∈ madeNames)

theorem leafNamed_makes {terminator : Option String} {stack : List Node} {progress : Progress}
    (above : ∀ node ∈ stack, LeafNamed named node)
    (made : Makes symbols terminator text stack start held progress) :
    ∀ node ∈ progress.stack, LeafNamed named node := by
  have below : ∀ node ∈ stack.tail, LeafNamed named node :=
    fun node mem => above node (List.mem_of_mem_tail mem)
  cases made with
  | push built => exact List.forall_mem_cons.mpr ⟨leafNamed_builds reserved other started all built, above⟩
  | @negation args =>
    have target := leafNamed_collapse reserved (all args (by simp))
    exact List.forall_mem_cons.mpr ⟨target, List.forall_mem_cons.mpr ⟨leafNamed_leaf rfl, above⟩⟩
  | @color all' nodes marker value parted =>
    have last := (parted.forall_iff.mp (all all' (by simp))).2
    refine List.forall_mem_append.mpr ⟨last, List.forall_mem_cons.mpr ⟨?_, above⟩⟩
    exact leafNamed_started reserved started nofun rfl
  | @table all' nodes marker parted =>
    have last := (parted.forall_iff.mp (all all' (by simp))).2
    refine List.forall_mem_append.mpr ⟨last, List.forall_mem_cons.mpr ⟨?_, above⟩⟩
    exact leafNamed_started reserved started nofun rfl
  | @infixFraction fraction held' all' nodes marker delimiter attributes parted =>
    have last := (parted.forall_iff.mp (all all' (by simp))).2
    refine List.forall_mem_append.mpr ⟨last, List.forall_mem_singleton.mpr ?_⟩
    exact leafNamed_made reserved (by decide : "\\frac" ∈ madeNames)
  | script =>
    exact List.forall_mem_cons.mpr ⟨leafNamed_made reserved (Script.token_attach ..), below⟩
  | limits above' =>
    subst above'
    exact List.forall_mem_cons.mpr
      ⟨leafNamed_made reserved (Script.token_attach ..), fun node mem => below node (List.mem_cons_of_mem _ mem)⟩
  | prime => exact List.forall_mem_cons.mpr ⟨leafNamed_made reserved (Script.token_addPrime _), below⟩

end Nodes

/-- Where no environment has a reserved name, only leaves do. -/
theorem leafNamed_invariant {symbols : SymbolTable} {named fine : String → Prop} (reserved : Reserved symbols named)
    (others : ∀ text, fine text → ¬ named (environmentNode text)) :
    Invariant symbols fine (LeafNamed named) where
  makes other started above all _ made := leafNamed_makes reserved (others _ other) started all above made
  marker _ _ := leafNamed_leaf rfl

/-! ## Closing delimiters -/

/-- The token that starts an environment of that name. -/
def rightEnvironment : String := "\\begin\x7bright\x7d"

/-- Only a leaf is named for a closing delimiter. -/
def RightLeaf (node : Node) : Prop := node.token = "\\right" → node.children = none

theorem Word.eq_of_inside? {start text inner : String} (inside : Word.inside? start text = some inner) :
    text = start ++ inner ++ Word.closeBrace := by
  unfold Word.inside? at inside
  dsimp only at inside
  split at inside
  · rename_i shaped
    simp only [Bool.and_eq_true, beq_iff_eq] at shaped
    obtain ⟨begins, ends⟩ := shaped
    obtain ⟨rest, split⟩ := List.isPrefixOf_iff_prefix.mp begins
    rw [← split, List.drop_left] at ends inside
    obtain ⟨front, rfl⟩ := List.getLast?_eq_some_iff.mp ends
    obtain rfl := Option.some.inj inside
    rw [← String.toList_inj, ← split]
    simp [Word.closeBrace]
  · cases inside

theorem Word.inside?_around (start inner : String) :
    Word.inside? start (start ++ inner ++ Word.closeBrace) = some inner := by
  simp [Word.inside?, Word.begins, Word.closeBrace, String.toList_append, List.append_assoc]

/-- An environment is no closing delimiter, but for the one of that name. -/
theorem environment_ne_right {text : String} (other : text ≠ rightEnvironment) :
    environmentNode text ≠ "\\right" := by
  intro same
  have letters : (Word.inside? Word.environmentStart text).getD "" = "right" := by
    have split : "\\right" = "\\" ++ "right" := by decide
    have same := congrArg String.toList same
    rw [split, environmentNode, String.toList_append, String.toList_append] at same
    exact String.toList_inj.mp (List.append_cancel_left same)
  cases named : Word.inside? Word.environmentStart text with
  | none =>
    rw [named] at letters
    exact absurd letters (by decide)
  | some name =>
    rw [named, Option.getD_some] at letters
    subst letters
    exact other (Word.eq_of_inside? named)

theorem rightLeaf_invariant (symbols : SymbolTable) :
    Invariant symbols (· ≠ rightEnvironment) RightLeaf :=
  leafNamed_invariant (reserved_right symbols) fun _ => environment_ne_right

/-! ## Tokens that close -/

/-- Whether a name is that of a closing delimiter or of the end of an environment. -/
def namesEnd (name : String) : Bool := name == "\\right" || (Word.inside? Word.environmentEnd name).isSome

/-- Whether a token starts an environment of which the node is taken for the token that closes a pair of
delimiters or another environment. -/
def standsIn (token : String) : Bool := namesEnd (environmentNode token)

theorem environmentEnd_eq (name : String) :
    Word.environmentEnd ++ name ++ Word.closeBrace = "\\" ++ ("end\x7b" ++ name ++ Word.closeBrace) := by
  rw [← String.append_assoc, ← String.append_assoc]
  rfl

/-- The only such environments are the one that is named for the closing delimiter, and those that are named
for the end of an environment together with its braces. -/
theorem standsIn_iff {token : String} : standsIn token = true ↔
    token = rightEnvironment ∨
      ∃ name, token = Word.environmentStart ++ ("end\x7b" ++ name ++ Word.closeBrace) ++ Word.closeBrace := by
  constructor
  · intro stands
    rcases Bool.or_eq_true_iff.mp stands with right | ends
    · exact .inl (Classical.byContradiction fun other => environment_ne_right other (beq_iff_eq.mp right))
    · obtain ⟨name, inside⟩ := Option.isSome_iff_exists.mp ends
      have same := congrArg String.toList ((Word.eq_of_inside? inside).trans (environmentEnd_eq name))
      rw [environmentNode, String.toList_append, String.toList_append] at same
      have letters := String.toList_inj.mp (List.append_cancel_left same)
      cases named : Word.inside? Word.environmentStart token with
      | none =>
        rw [named] at letters
        exact absurd (congrArg String.toList letters) (by simp)
      | some inner =>
        rw [named, Option.getD_some] at letters
        exact .inr ⟨name, letters ▸ Word.eq_of_inside? named⟩
  · rintro (rfl | ⟨name, rfl⟩)
    · decide +kernel
    · rw [standsIn, environmentNode, Word.inside?_around, Option.getD_some, ← environmentEnd_eq, namesEnd,
        Word.inside?_around, Option.isSome_some, Bool.or_true]

theorem Word.begins_of_inside? {start text : String} (inside : (Word.inside? start text).isSome = true) :
    Word.begins start text = true := by
  unfold Word.inside? at inside
  dsimp only at inside
  split at inside
  · rename_i shaped
    exact (Bool.and_eq_true_iff.mp shaped).1
  · cases inside

theorem Word.ne_of_begins {start text other : String} (begins : Word.begins start text = true)
    (apart : Word.begins start other = false) : text ≠ other := by
  rintro rfl
  rw [apart] at begins
  cases begins

/-- Two words of which neither begins with the other do not begin the same one. -/
theorem Word.begins_apart {start other text : String} (begins : Word.begins start text = true)
    (apart : Word.begins start other = false) (apart' : Word.begins other start = false) :
    Word.begins other text = false := by
  unfold Word.begins at *
  rw [← Bool.not_eq_true, List.isPrefixOf_iff_prefix] at *
  intro begins'
  rcases List.prefix_or_prefix_of_prefix begins begins' with shorter | shorter
  · exact apart shorter
  · exact apart' shorter

theorem ending_ne_right (text : String) : ending text ≠ "\\right" := by
  have ends : Word.begins Word.environmentEnd (ending text) = true := by
    simp [ending, Word.begins, String.toList_append, List.append_assoc]
  exact Word.ne_of_begins ends (by decide +kernel)

/-- A token that begins as the end of an environment has no parts. -/
theorem start_ending (symbols : SymbolTable) {text : String} (ends : Word.begins Word.environmentEnd text = true) :
    Start.of symbols text = .command none := by
  have shapes : Shape.commands.all fun entry => !Word.begins Word.environmentEnd entry.1 := by decide +kernel
  have words : ∀ word ∈ ["\\left", Word.openBrace, "_", "^", "'"], Word.begins Word.environmentEnd word = false := by
    decide +kernel
  refine start_bare symbols (Word.begins_apart ends (by decide +kernel) (by decide +kernel)) ?_ ?_
    (Word.begins_apart ends (by decide +kernel) (by decide +kernel))
  · exact fun mem => Word.ne_of_begins ends (words text mem) rfl
  · rw [Shape.of?, List.lookup_eq_none_iff]
    intro entry listed
    have other := List.all_eq_true.mp shapes entry listed
    simpa using Word.ne_of_begins ends (by simpa using other)

theorem reserved_ends (symbols : SymbolTable) : Reserved symbols (namesEnd · = true) where
  bare {text} named := by
    rcases Bool.or_eq_true_iff.mp named with right | ends
    · exact beq_iff_eq.mp right ▸ start_right symbols
    · exact start_ending symbols (Word.begins_of_inside? ends)
  unmade := by decide +kernel

/-- Where no environment stands in for a closing token, only leaves are named for one. -/
theorem endLeaf_invariant (symbols : SymbolTable) :
    Invariant symbols (standsIn · = false) (LeafNamed (namesEnd · = true)) :=
  leafNamed_invariant (reserved_ends symbols) fun _ other => Bool.not_eq_true _ ▸ other

/-- A node with the name of a closing token is the leaf that a sequence leaves for it. -/
theorem Node.marks_of_is {node : Node} {closing : String} (leaf : LeafNamed (namesEnd · = true) node)
    (ends : namesEnd closing = true) (named : node.is closing = true) : node.marks (some closing) = true := by
  have same : node.token = closing := beq_iff_eq.mp named
  exact Node.marks_iff.mpr ⟨leaf (same ▸ ends), congrArg some same⟩

end FormulaMarkup

import FormulaMarkup.Source.Token
import Mathlib.Data.List.Basic

/-!
Lexing of tokens with one space between them. Every such token is read back alone, whatever follows
it behind the space. Two lexemes look further than a space: a number takes a unit along, and a
fraction takes single digits. Main statement: the tokens of a spaced source have the texts that it
was made of.
-/
namespace FormulaMarkup.Source

/-- The characters that are tokens by themselves, as far as they are used here. -/
def IsSymbol (c : Char) : Prop :=
  c.isAlpha = true ∨ 127 < c.toNat ∨ c ∈ "\x7b\x7d_^[]()|/.&".toList

/-- Tokens that are read alone before a space. -/
inductive Plain : String → Prop where
  | symbol {c : Char} (known : IsSymbol c) : Plain (String.singleton c)
  | number {digits : List Char} (some : digits ≠ []) (all : ∀ c ∈ digits, c.isDigit = true) :
      Plain (String.ofList digits)
  | command {word : String} (known : word ∈
      ["\\sqrt", "\\left", "\\right", "\\\\", "\\begin\x7bmatrix\x7d", "\\end\x7bmatrix\x7d"]) :
      Plain word

/-- Tokens that may stand in a row with one space between them. -/
inductive Spaced : List String → Prop where
  | nil : Spaced []
  | cons {word : String} {words : List String} (plain : Plain word) (rest : Spaced words) :
      Spaced (word :: words)
  | fraction {words : List String} (rest : Spaced ("\x7b" :: words)) :
      Spaced ("\\frac" :: "\x7b" :: words)

theorem Spaced.append {front back : List String} (first : Spaced front) (second : Spaced back) :
    Spaced (front ++ back) := by
  induction first with
  | nil => exact second
  | cons plain _ ih => exact .cons plain ih
  | fraction _ ih => exact .fraction ih

theorem Spaced.tail {word : String} {words : List String} (spaced : Spaced (word :: words)) :
    Spaced words := by
  cases spaced with
  | cons _ rest => exact rest
  | fraction rest => exact rest

def behind (words : List String) : List Char := words.flatMap fun word => ' ' :: word.toList

theorem toList_intercalate_cons (word : String) (words : List String) :
    (" ".intercalate (word :: words)).toList = word.toList ++ behind words := by
  induction words generalizing word with
  | nil => simp [behind]
  | cons next rest ih =>
    rw [String.intercalate_cons_cons, String.toList_append, String.toList_append, ih]
    simp [behind]

theorem behind_cases (words : List String) :
    behind words = [] ∨ ∃ cs, behind words = ' ' :: cs := by
  cases words with
  | nil => exact .inl rfl
  | cons word rest => exact .inr ⟨_, rfl⟩

theorem takeWhile_behind (words : List String) : (behind words).takeWhile Char.isDigit = [] := by
  rcases behind_cases words with empty | ⟨cs, space⟩
  · rw [empty]
    rfl
  · rw [space]
    rfl

theorem dropWhile_behind (words : List String) :
    (behind words).dropWhile Char.isDigit = behind words := by
  rcases behind_cases words with empty | ⟨cs, space⟩
  · rw [empty]
    rfl
  · rw [space]
    rfl

/-! ## Symbols -/

instance (c : Char) : Decidable (IsSymbol c) :=
  inferInstanceAs (Decidable (_ ∨ _ ∨ _))

theorem IsSymbol.isDigit_eq_false {c : Char} (known : IsSymbol c) : c.isDigit = false := by
  by_contra digit
  rw [Bool.not_eq_false, Char.isDigit, Bool.and_eq_true, decide_eq_true_iff, decide_eq_true_iff]
    at digit
  have low : 48 ≤ c.toNat := digit.1
  have high : c.toNat ≤ 57 := digit.2
  have few : ∀ n ∈ List.range 58, 48 ≤ n → ¬ IsSymbol (Char.ofNat n) := by decide
  refine few c.toNat (List.mem_range.mpr (by omega)) low ?_
  rwa [Char.ofNat_toNat]

theorem IsSymbol.ne {c d : Char} (known : IsSymbol c) (other : ¬ IsSymbol d) : c ≠ d := by
  rintro rfl
  exact other known

theorem IsSymbol.isBlank_eq_false {c : Char} (known : IsSymbol c) : Scan.isBlank c = false := by
  have : c ≠ ' ' := known.ne (by decide)
  have : c ≠ '\t' := known.ne (by decide)
  have : c ≠ '\n' := known.ne (by decide)
  have : c ≠ '\x0c' := known.ne (by decide)
  have : c ≠ '\r' := known.ne (by decide)
  simp [Scan.isBlank, *]

theorem command?_symbol {c : Char} (known : IsSymbol c) (cs : List Char) :
    Scan.command? (c :: cs) = none := by
  have other : c ≠ '\\' := known.ne (by decide)
  unfold Scan.command?
  split
  · rename_i same
    exact absurd (List.cons.inj same).1 other
  · rfl

theorem number?_symbol {c : Char} (known : IsSymbol c) (cs : List Char) :
    Scan.number? (c :: cs) = none := by
  simp [Scan.number?, known.isDigit_eq_false]

theorem read_symbol {c : Char} (known : IsSymbol c) (symbols : SymbolTable) (first : Bool)
    (words : List String) :
    Lexeme.read symbols first c (behind words) = ⟨[.token [c]], behind words⟩ := by
  have minus : c ≠ '-' := known.ne (by decide)
  have percent : c ≠ '%' := known.ne (by decide)
  have backslash : c ≠ '\\' := known.ne (by decide)
  have number := number?_symbol known (behind words)
  have command := command?_symbol known (behind words)
  have dimension : Lexeme.dimension? (c :: behind words) = none := by
    simp [Lexeme.dimension?, Scan.dimension?, Scan.quantity?, number, minus]
  have comment : Lexeme.comment? (c :: behind words) = none := by
    simp [Lexeme.comment?, percent]
  have scriptDigit : Lexeme.scriptDigit? (c :: behind words) = none := by
    rcases behind_cases words with empty | ⟨cs, space⟩
    · rw [empty]
      rfl
    · rw [space]
      simp [Lexeme.scriptDigit?]
  have escaped : Lexeme.escaped? (c :: behind words) = none := by
    unfold Lexeme.escaped?
    split
    · rename_i same
      exact absurd (List.cons.inj same).1 backslash
    · rfl
  unfold Lexeme.read Lexeme.rules
  simp only [List.findSome?, dimension, comment, scriptDigit, escaped, Lexeme.number?, number,
    Lexeme.environmentHeader?, Lexeme.operatorName?, Lexeme.rawArgument?, Lexeme.shortFraction?,
    Lexeme.command?, command, Option.map_none]
  by_cases point : c = '.'
  · subst point
    simp [Lexeme.point?, takeWhile_behind, dropWhile_behind]
  · have other : Lexeme.point? (c :: behind words) = none := by simp [Lexeme.point?, point]
    rw [other]
    rfl

/-! ## Commands -/

theorem read_command {c : Char} {cs : List Char} (known : String.ofList (c :: cs) ∈
      ["\\sqrt", "\\left", "\\right", "\\\\", "\\begin\x7bmatrix\x7d", "\\end\x7bmatrix\x7d"])
    (symbols : SymbolTable) (first : Bool) (words : List String) :
    Lexeme.read symbols first c (cs ++ behind words) = ⟨[.token (c :: cs)], behind words⟩ := by
  have shape : c :: cs ∈ ["\\sqrt".toList, "\\left".toList, "\\right".toList, "\\\\".toList,
      "\\begin\x7bmatrix\x7d".toList, "\\end\x7bmatrix\x7d".toList] := by
    simp only [List.mem_cons, List.not_mem_nil, or_false] at known ⊢
    simpa only [← String.toList_inj, String.toList_ofList] using known
  simp only [List.mem_cons, List.not_mem_nil, or_false] at shape
  rcases behind_cases words with empty | ⟨rest, space⟩
  · rw [empty]
    rcases shape with same | same | same | same | same | same <;>
      cases same <;> cases first <;> rfl
  · rw [space]
    rcases shape with same | same | same | same | same | same <;>
      cases same <;> cases first <;> rfl

/-- Before a brace a fraction takes nothing along. -/
theorem read_fraction (symbols : SymbolTable) (first : Bool) (words : List String) :
    Lexeme.read symbols first '\\' ("frac".toList ++ behind ("\x7b" :: words)) =
      ⟨[.token "\\frac".toList], behind ("\x7b" :: words)⟩ := by
  cases first <;> rfl

/-! ## Numbers -/

theorem unit_shape {a b : Char} (unit : Scan.units.contains (a, b) = true) :
    a.isDigit = false ∧ a ≠ '\\' ∧ b ≠ ' ' := by
  have all : ∀ entry ∈ Scan.units, entry.1.isDigit = false ∧ entry.1 ≠ '\\' ∧ entry.2 ≠ ' ' := by
    decide
  exact all (a, b) (List.contains_iff_mem.mp unit)

/-- What a word begins with. -/
theorem Spaced.head {word : String} {words : List String} (spaced : Spaced (word :: words)) :
    ∃ c cs, word.toList = c :: cs ∧ Scan.isBlank c = false ∧
      (c.isDigit = true ∨ c = '\\' ∨ cs = []) := by
  cases spaced with
  | cons plain _ =>
    cases plain with
    | symbol known => exact ⟨_, [], String.toList_singleton _, known.isBlank_eq_false, .inr (.inr rfl)⟩
    | @number digits some all =>
      cases digits with
      | nil => exact absurd rfl some
      | cons c cs =>
        have digit := all c List.mem_cons_self
        refine ⟨c, cs, String.toList_ofList, ?_, .inl digit⟩
        by_contra blank
        rw [Bool.not_eq_false, Scan.isBlank, decide_eq_true_iff] at blank
        rcases blank with rfl | rfl | rfl | rfl | rfl <;> cases digit
    | command known =>
      simp only [List.mem_cons, List.not_mem_nil, or_false] at known
      rcases known with rfl | rfl | rfl | rfl | rfl | rfl <;>
        exact ⟨'\\', _, rfl, rfl, .inr (.inl rfl)⟩
  | fraction _ => exact ⟨'\\', "frac".toList, rfl, rfl, .inr (.inl rfl)⟩

/-- No two characters behind a space are a unit. -/
theorem no_unit {words : List String} (spaced : Spaced words) {a b : Char} {cs : List Char}
    (shape : (behind words).dropWhile Scan.isBlank = a :: b :: cs) :
    Scan.units.contains (a, b) = false := by
  by_contra unit
  obtain ⟨digit, backslash, space⟩ := unit_shape (Bool.not_eq_false _ ▸ unit)
  cases words with
  | nil => cases shape
  | cons word words =>
    obtain ⟨c, cs, split, blank, first⟩ := spaced.head
    have start : behind (word :: words) = ' ' :: c :: (cs ++ behind words) := by
      rw [behind, List.flatMap_cons, split]
      rfl
    rw [start, List.dropWhile_cons_of_pos rfl,
      List.dropWhile_cons_of_neg (by simp [blank])] at shape
    obtain ⟨rfl, after⟩ := List.cons.inj shape
    rcases first with isDigit | rfl | rfl
    · rw [digit] at isDigit
      cases isDigit
    · exact backslash rfl
    · rcases behind_cases words with empty | ⟨rest, next⟩
      · rw [empty] at after
        cases after
      · rw [next, List.nil_append] at after
        exact space (List.cons.inj after).1.symm

theorem number?_digits {digits : List Char} (some' : digits ≠ [])
    (all : ∀ c ∈ digits, c.isDigit = true) (words : List String) :
    Scan.number? (digits ++ behind words) = some (digits, behind words) := by
  have taken : (digits ++ behind words).takeWhile Char.isDigit = digits := by
    rw [List.takeWhile_append_of_pos all, takeWhile_behind, List.append_nil]
  have left : (digits ++ behind words).dropWhile Char.isDigit = behind words := by
    rw [List.dropWhile_append_of_pos all, dropWhile_behind]
  unfold Scan.number?
  rw [taken, left]
  rcases behind_cases words with empty | ⟨rest, space⟩
  · simp [empty, some']
  · simp [space, some']

theorem read_number {c : Char} {cs : List Char} (all : ∀ d ∈ c :: cs, d.isDigit = true)
    {words : List String} (spaced : Spaced words) (symbols : SymbolTable) (first : Bool) :
    Lexeme.read symbols first c (cs ++ behind words) = ⟨[.token (c :: cs)], behind words⟩ := by
  have number := number?_digits (List.cons_ne_nil c cs) all words
  rw [List.cons_append] at number
  have digit := all c List.mem_cons_self
  have minus : c ≠ '-' := by
    rintro rfl
    cases digit
  have percent : c ≠ '%' := by
    rintro rfl
    cases digit
  have mark : ¬ (c = '_' ∨ c = '^') := by
    rintro (rfl | rfl) <;> cases digit
  have dimension : Lexeme.dimension? (c :: (cs ++ behind words)) = none := by
    have quantity : Scan.quantity? (c :: (cs ++ behind words)) = none := by
      simp only [Scan.quantity?, number]
      split
      · rename_i shape
        rw [no_unit spaced shape]
        rfl
      · rfl
    simp [Lexeme.dimension?, Scan.dimension?, quantity, minus]
  have comment : Lexeme.comment? (c :: (cs ++ behind words)) = none := by
    simp [Lexeme.comment?, percent]
  have scriptDigit : Lexeme.scriptDigit? (c :: (cs ++ behind words)) = none := by
    unfold Lexeme.scriptDigit?
    split
    · rename_i same
      obtain ⟨rfl, -⟩ := List.cons.inj same
      rw [if_neg fun both => mark both.1]
    · rfl
  unfold Lexeme.read Lexeme.rules
  simp only [List.findSome?, dimension, comment, scriptDigit, Lexeme.number?, number]
  rfl

/-! ## Whole sources -/

/-- A word in a row is read alone. -/
theorem Spaced.read {word : String} {words : List String} (spaced : Spaced (word :: words)) :
    ∃ c cs, word.toList = c :: cs ∧ Scan.isBlank c = false ∧ ∀ symbols first,
      Lexeme.read symbols first c (cs ++ behind words) = ⟨[.token (c :: cs)], behind words⟩ := by
  obtain ⟨c, cs, split, blank, -⟩ := spaced.head
  refine ⟨c, cs, split, blank, fun symbols first => ?_⟩
  cases spaced with
  | cons plain rest =>
    cases plain with
    | symbol known =>
      rw [String.toList_singleton] at split
      cases split
      exact read_symbol known symbols first words
    | number some all =>
      rw [String.toList_ofList] at split
      subst split
      exact read_number all rest symbols first
    | command known =>
      refine read_command ?_ symbols first words
      rwa [← split, String.ofList_toList]
  | fraction _ =>
    cases split
    exact read_fraction symbols first _

theorem Plain.oneLine {word : String} (plain : Plain word) : '\n' ∉ word.toList := by
  cases plain with
  | symbol known =>
    rw [String.toList_singleton, List.mem_singleton]
    exact (known.ne (by decide)).symm
  | number some all =>
    rw [String.toList_ofList]
    intro mem
    cases all _ mem
  | command known =>
    revert word
    decide

theorem Spaced.oneLine {words : List String} (spaced : Spaced words) :
    ∀ word ∈ words, '\n' ∉ word.toList := by
  induction spaced with
  | nil =>
    intro word absurd
    cases absurd
  | cons plain _ ih =>
    intro word mem
    rcases List.mem_cons.mp mem with rfl | mem
    · exact plain.oneLine
    · exact ih word mem
  | fraction _ ih =>
    intro word mem
    rcases List.mem_cons.mp mem with rfl | mem
    · decide
    · exact ih word mem

def textsOf (segments : List Segment) : List String := (segments.filterMap (·.text)).map String.ofList

theorem tokensFrom_texts (place : Nat) (segments : List Segment) :
    (tokensFrom place segments).map (·.text) = textsOf segments := by
  induction segments generalizing place with
  | nil => rfl
  | cons segment rest ih =>
    obtain ⟨source, text⟩ := segment
    cases text with
    | none => exact ih _
    | some text =>
      simp only [tokensFrom, List.map_cons, ih]
      rfl

theorem lineSegments_behind (symbols : SymbolTable) (first : Bool) {words : List String}
    (spaced : Spaced words) : textsOf (lineSegments symbols first (behind words)) = words := by
  induction words generalizing first with
  | nil =>
    rw [behind, List.flatMap_nil, lineSegments]
    rfl
  | cons word words ih =>
    obtain ⟨c, cs, split, blank, read⟩ := spaced.read
    have rest : Spaced words := spaced.tail
    have start : behind (word :: words) = ' ' :: c :: (cs ++ behind words) := by
      rw [behind, List.flatMap_cons, split]
      rfl
    have space : Scan.isBlank ' ' = true := rfl
    rw [start, lineSegments, if_pos space, lineSegments, if_neg (by simp [blank]), read]
    have more := ih false rest
    simp only [textsOf] at more
    simp [textsOf, Segment.gap, Segment.token, more, ← split]

/-- The tokens of a spaced source have the texts that it was made of. -/
theorem tokens_spaced (symbols : SymbolTable) {words : List String} (spaced : Spaced words) :
    (tokens symbols (" ".intercalate words)).map (·.text) = words := by
  rw [tokens, tokensFrom_texts]
  cases words with
  | nil =>
    simp [segments, lineSegments, textsOf]
  | cons word words =>
    obtain ⟨c, cs, split, blank, read⟩ := spaced.read
    have line : (" ".intercalate (word :: words)).toList = c :: (cs ++ behind words) := by
      rw [toList_intercalate_cons, split, List.cons_append]
    have more := lineSegments_behind symbols false spaced.tail
    simp only [textsOf] at more
    have oneLine : ∀ d ∈ c :: (cs ++ behind words), (d == '\n') = false := by
      intro d mem
      rw [← List.cons_append, ← split, List.mem_append, behind, List.mem_flatMap] at mem
      refine beq_eq_false_iff_ne.mpr ?_
      rintro rfl
      rcases mem with mem | ⟨other, listed, mem⟩
      · exact spaced.oneLine word List.mem_cons_self mem
      · rcases List.mem_cons.mp mem with space | mem
        · cases space
        · exact spaced.oneLine other (List.mem_cons_of_mem _ listed) mem
    rw [segments, line, List.splitOn, List.splitOnP_eq_singleton oneLine, List.map_singleton,
      List.intercalate_singleton, lineSegments, if_neg (by simp [blank]), read]
    simp [textsOf, Segment.token, more, ← split]

end FormulaMarkup.Source

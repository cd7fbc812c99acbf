import FormulaMarkup.Proofs.Source.Grammar
import FormulaMarkup.Proofs.Source.Lines
import FormulaMarkup.Proofs.Source.Spacing

/-!
Blanks at the end of a line. A lexeme that looks further than itself looks for a character that is no
blank, so blanks behind a line change nothing in how it is lexed. One lexeme is not so: a backslash that
stands alone at the end of the line escapes the blank behind it. Main statement: blanks may be put behind a
line at the end of which no backslash stands alone.
-/
namespace FormulaMarkup

/-- A reading of a line with more behind it. -/
def Reading.before (tail : List Char) (r : Reading) : Reading := ⟨r.segments, r.rest ++ tail⟩

section Blanks

variable {tail : List Char} (blank : ∀ c ∈ tail, Scan.isBlank c)

include blank

/-! ## Characters before blanks -/

/-- Taking characters of a class that has no blanks ends before the blanks. -/
theorem takeWhile_before {p : Char → Bool} (other : ∀ c, Scan.isBlank c → p c = false) (cs : List Char) :
    (cs ++ tail).takeWhile p = cs.takeWhile p ∧ (cs ++ tail).dropWhile p = cs.dropWhile p ++ tail := by
  have none : tail.takeWhile p = [] ∧ tail.dropWhile p = tail := by
    cases tail with
    | nil => exact ⟨rfl, rfl⟩
    | cons c tail =>
      have fails := other c (blank c List.mem_cons_self)
      simp [fails]
  induction cs with
  | nil => simpa using none
  | cons c cs ih =>
    cases passes : p c with
    | false => simp [passes]
    | true => simpa [passes] using ih

/-- Taking characters of a class that has all blanks goes on to the end, or ends where it did. -/
theorem takeWhile_through {p : Char → Bool} (all : ∀ c, Scan.isBlank c → p c = true) (cs : List Char) :
    cs.dropWhile p = [] ∧ (cs ++ tail).dropWhile p = [] ∨
      (∃ d ds, cs.dropWhile p = d :: ds ∧ (cs ++ tail).dropWhile p = d :: (ds ++ tail)) ∧
        (cs ++ tail).takeWhile p = cs.takeWhile p := by
  have through : tail.dropWhile p = [] :=
    List.dropWhile_eq_nil_iff.mpr fun c listed => all c (blank c listed)
  induction cs with
  | nil => exact .inl ⟨rfl, through⟩
  | cons c cs ih =>
    cases passes : p c with
    | false => exact .inr ⟨⟨c, cs, by simp [passes], by simp [passes]⟩, by simp [passes]⟩
    | true => simpa [passes] using ih

omit blank in
theorem not_isDigit_of_isBlank (c : Char) (blank : Scan.isBlank c) : c.isDigit = false := by
  rw [Scan.isBlank, decide_eq_true_iff] at blank
  rcases blank with rfl | rfl | rfl | rfl | rfl <;> rfl

omit blank in
theorem not_isAlpha_of_isBlank (c : Char) (blank : Scan.isBlank c) : c.isAlpha = false := by
  rw [Scan.isBlank, decide_eq_true_iff] at blank
  rcases blank with rfl | rfl | rfl | rfl | rfl <;> rfl

omit blank in
theorem ne_of_isBlank {c d : Char} (blank : Scan.isBlank c) (other : Scan.isBlank d = false) : c ≠ d := by
  rintro rfl
  rw [blank] at other
  cases other

/-! ## Scanners before blanks -/

theorem number?_before (cs : List Char) :
    Scan.number? (cs ++ tail) = (Scan.number? cs).map fun (taken, rest) => (taken, rest ++ tail) := by
  obtain ⟨taken, left⟩ := takeWhile_before blank not_isDigit_of_isBlank cs
  unfold Scan.number?
  dsimp only
  rw [taken, left]
  split
  · rfl
  · cases behind : cs.dropWhile Char.isDigit with
    | nil =>
      cases tail with
      | nil => rfl
      | cons c tail =>
        have point : c ≠ '.' := ne_of_isBlank (blank c List.mem_cons_self) rfl
        simp [point]
    | cons d fraction =>
      obtain ⟨taken', left'⟩ := takeWhile_before blank not_isDigit_of_isBlank fraction
      by_cases point : d = '.'
      · subst point
        simp only [List.cons_append, taken', left']
        split <;> rfl
      · simp [point]

/-- A text that does not end in a blank stands in front of the blanks. -/
theorem match_before {g : Language Char} (ends : ∀ w ∈ g, ∃ c ∈ w.getLast?, Scan.isBlank c = false)
    {cs taken rest : List Char} :
    Grammar.Match g (cs ++ tail) taken rest ↔
      ∃ left, Grammar.Match g cs taken left ∧ rest = left ++ tail := by
  constructor
  · rintro ⟨matched, whole⟩
    obtain ⟨c, last, visible⟩ := ends taken matched
    obtain ⟨left, rfl, rfl⟩ | ⟨more, rfl, rfl⟩ := List.append_eq_append_iff.mp whole
    · exact ⟨left, ⟨matched, rfl⟩, rfl⟩
    · cases more with
      | nil => exact ⟨[], ⟨matched, by simp⟩, rfl⟩
      | cons d ds =>
        rw [List.getLast?_append_cons] at last
        rw [blank c (List.mem_append_left rest (List.mem_of_getLast? last))] at visible
        cases visible
  · rintro ⟨left, ⟨matched, rfl⟩, rfl⟩
    exact ⟨matched, (List.append_assoc ..).symm⟩

/-- A scanner for such texts takes nothing of the blanks. -/
theorem scan_before {g : Language Char} {scan : List Char → Option (List Char × List Char)}
    (finds : ∀ {line taken rest}, scan line = some (taken, rest) ↔ Grammar.Match g line taken rest)
    (ends : ∀ w ∈ g, ∃ c ∈ w.getLast?, Scan.isBlank c = false) (cs : List Char) :
    scan (cs ++ tail) = (scan cs).map fun (taken, rest) => (taken, rest ++ tail) := by
  apply Option.ext
  rintro ⟨taken, rest⟩
  rw [Option.map_eq_some_iff, finds, match_before blank ends]
  constructor
  · rintro ⟨left, matched, rfl⟩
    exact ⟨(taken, left), finds.mpr matched, rfl⟩
  · rintro ⟨⟨taken, left⟩, found, ⟨⟩⟩
    exact ⟨left, finds.mp found, rfl⟩

theorem dimension?_before (cs : List Char) :
    Scan.dimension? (cs ++ tail) = (Scan.dimension? cs).map fun (taken, rest) => (taken, rest ++ tail) := by
  refine scan_before blank Scan.dimension?_eq_some_iff (fun w matched => ?_) cs
  have letters : ∀ unit ∈ Scan.units, Scan.isBlank unit.2 = false := by decide
  obtain ⟨sign, -, n, -, gap, -, a, b, known, rfl⟩ := Grammar.mem_dimension.mp matched
  exact ⟨b, by simp, letters (a, b) known⟩

theorem environmentName?_before (cs : List Char) :
    Scan.environmentName? (cs ++ tail) =
      (Scan.environmentName? cs).map fun (taken, rest) => (taken, rest ++ tail) := by
  refine scan_before blank Scan.environmentName?_eq_some_iff (fun w matched => ?_) cs
  obtain ⟨gap, -, name, -, -, star, -, rfl⟩ := Grammar.mem_environmentName.mp matched
  exact ⟨'\x7d', by simp [List.getLast?_cons], rfl⟩

theorem operatorName?_before (cs : List Char) :
    Scan.operatorName? (cs ++ tail) =
      (Scan.operatorName? cs).map fun (taken, rest) => (taken, rest ++ tail) := by
  refine scan_before blank Scan.operatorName?_eq_some_iff (fun w matched => ?_) cs
  obtain ⟨gap, -, name, -, -, rfl⟩ := Grammar.mem_operatorName.mp matched
  exact ⟨'\x7d', by simp [List.getLast?_cons], rfl⟩

theorem command?_before (cs : List Char) :
    Scan.command? (cs ++ tail) = (Scan.command? cs).map fun (name, rest) => (name, rest ++ tail) := by
  cases cs with
  | nil =>
    cases tail with
    | nil => rfl
    | cons c tail =>
      have backslash : c ≠ '\\' := ne_of_isBlank (blank c List.mem_cons_self) rfl
      simp [Scan.command?, backslash]
  | cons c cs =>
    by_cases backslash : c = '\\'
    · subst backslash
      obtain ⟨letters, behind⟩ := takeWhile_before blank not_isAlpha_of_isBlank cs
      simp only [List.cons_append, Scan.command?, letters, behind]
      split <;> rfl
    · simp [Scan.command?, backslash]

/-! ## Lexemes before blanks -/

namespace Lexeme

theorem dimension?_before (line : List Char) :
    dimension? (line ++ tail) = (dimension? line).map (Reading.before tail) := by
  rw [dimension?, FormulaMarkup.dimension?_before blank, dimension?, Option.map_map, Option.map_map]
  rfl

theorem number?_before (line : List Char) :
    number? (line ++ tail) = (number? line).map (Reading.before tail) := by
  rw [number?, FormulaMarkup.number?_before blank, number?, Option.map_map, Option.map_map]
  rfl

theorem scriptDigit?_before {c : Char} {cs : List Char} :
    scriptDigit? (c :: cs ++ tail) = (scriptDigit? (c :: cs)).map (Reading.before tail) := by
  cases cs with
  | nil =>
    cases tail with
    | nil => rfl
    | cons b tail =>
      have digit := not_isDigit_of_isBlank b (blank b List.mem_cons_self)
      simp [scriptDigit?, digit]
  | cons d ds =>
    unfold scriptDigit?
    dsimp only [List.cons_append]
    split <;> rfl

theorem point?_before {c : Char} {cs : List Char} :
    point? (c :: cs ++ tail) = (point? (c :: cs)).map (Reading.before tail) := by
  by_cases point : c = '.'
  · subst point
    obtain ⟨digits, behind⟩ := takeWhile_before blank not_isDigit_of_isBlank cs
    simp only [List.cons_append, point?, digits, behind]
    rfl
  · simp [point?, point]

omit blank in
/-- A backslash that has a character behind it escapes that one or none. -/
theorem escaped?_before {c : Char} {cs : List Char} (more : c :: cs ≠ ['\\']) :
    escaped? (c :: cs ++ tail) = (escaped? (c :: cs)).map (Reading.before tail) := by
  by_cases backslash : c = '\\'
  · subst backslash
    cases cs with
    | nil => contradiction
    | cons d ds =>
      simp only [List.cons_append, escaped?]
      split <;> rfl
  · simp [escaped?, backslash]

theorem environmentHeader?_before (line : List Char) :
    environmentHeader? (line ++ tail) = (environmentHeader? line).map (Reading.before tail) := by
  unfold environmentHeader?
  rw [command?_before blank]
  cases Scan.command? line with
  | none => rfl
  | some result =>
    obtain ⟨name, behind⟩ := result
    dsimp only [Option.map_some]
    rw [environmentName?_before blank, Option.map_map]
    split
    · rw [Option.map_map]
      rfl
    · rfl

theorem operatorName?_before (line : List Char) :
    operatorName? (line ++ tail) = (operatorName? line).map (Reading.before tail) := by
  unfold operatorName?
  rw [command?_before blank]
  cases Scan.command? line with
  | none => rfl
  | some result =>
    obtain ⟨name, behind⟩ := result
    dsimp only [Option.map_some]
    rw [FormulaMarkup.operatorName?_before blank, Option.map_map]
    split
    · rw [Option.map_map]
      rfl
    · rfl

theorem rawArgument?_before (line : List Char) :
    rawArgument? (line ++ tail) = (rawArgument? line).map (Reading.before tail) := by
  unfold rawArgument?
  rw [command?_before blank]
  cases Scan.command? line with
  | none => rfl
  | some result =>
    obtain ⟨name, behind⟩ := result
    dsimp only [Option.map_some]
    split
    · obtain ⟨nothing, nothing'⟩ | ⟨⟨c, inner, left, left'⟩, taken⟩ :=
        takeWhile_through blank (p := Scan.isBlank) (fun _ => id) behind
      · rw [nothing, nothing']
        rfl
      · rw [left, left', taken]
        by_cases brace : c = '\x7b'
        · subst brace
          obtain ⟨nothing, nothing'⟩ | ⟨⟨d, rest, left, left'⟩, taken⟩ :=
            takeWhile_through blank (p := fun c => decide (c ≠ '\x7d'))
              (fun c blank => decide_eq_true (ne_of_isBlank blank rfl)) inner
          · simp only [nothing, nothing']
            rfl
          · simp only [left, left', taken]
            split <;> rfl
        · simp [brace]
    · rfl

theorem shortFraction?_before (line : List Char) :
    shortFraction? (line ++ tail) = (shortFraction? line).map (Reading.before tail) := by
  unfold shortFraction?
  rw [command?_before blank]
  cases Scan.command? line with
  | none => rfl
  | some result =>
    obtain ⟨name, behind⟩ := result
    dsimp only [Option.map_some]
    split
    · obtain ⟨nothing, nothing'⟩ | ⟨⟨upper, between, left, left'⟩, taken⟩ :=
        takeWhile_through blank (p := Scan.isBlank) (fun _ => id) behind
      · rw [nothing, nothing']
        rfl
      · rw [left, left', taken]
        dsimp only
        split
        · obtain ⟨nothing, nothing'⟩ | ⟨⟨under, rest, left, left'⟩, taken⟩ :=
            takeWhile_through blank (p := Scan.isBlank) (fun _ => id) between
          · rw [nothing, nothing']
            rfl
          · rw [left, left', taken]
            dsimp only
            split <;> rfl
        · rfl
    · rfl

theorem command?_before (symbols : SymbolTable) (first : Bool) (line : List Char) :
    command? symbols first (line ++ tail) = (command? symbols first line).map (Reading.before tail) := by
  unfold command?
  rw [FormulaMarkup.command?_before blank]
  cases Scan.command? line with
  | none => rfl
  | some result =>
    obtain ⟨name, rest⟩ := result
    dsimp only [Option.map_some]
    split <;> rfl

omit blank in
theorem comment?_of_ne {c : Char} (other : c ≠ '%') (cs : List Char) : comment? (c :: cs) = none := by
  simp [comment?, other]

/-- Each rule takes nothing of the blanks behind its line, a comment and a lone backslash apart. -/
theorem rule_before (symbols : SymbolTable) (first : Bool) {c : Char} {cs : List Char} (note : c ≠ '%')
    (more : c :: cs ≠ ['\\']) {rule : List Char → Option Reading} (listed : rule ∈ rules symbols first) :
    rule (c :: cs ++ tail) = (rule (c :: cs)).map (Reading.before tail) := by
  simp only [rules, List.mem_cons, List.not_mem_nil, or_false] at listed
  rcases listed with rfl | rfl | rfl | rfl | rfl | rfl | rfl | rfl | rfl | rfl | rfl
  · exact dimension?_before blank _
  · rw [List.cons_append, comment?_of_ne note, comment?_of_ne note]
    rfl
  · exact scriptDigit?_before blank
  · exact number?_before blank _
  · exact point?_before blank
  · exact escaped?_before more
  · exact environmentHeader?_before blank _
  · exact operatorName?_before blank _
  · exact rawArgument?_before blank _
  · exact shortFraction?_before blank _
  · exact command?_before blank symbols first _

omit blank in
theorem findSome?_congr {α β : Type} {f g : α → Option β} {l : List α} (same : ∀ a ∈ l, f a = g a) :
    l.findSome? f = l.findSome? g := by
  induction l with
  | nil => rfl
  | cons a l ih =>
    rw [List.findSome?_cons, List.findSome?_cons, same a List.mem_cons_self,
      ih fun b listed => same b (List.mem_cons_of_mem a listed)]

/-- A lexeme takes nothing of the blanks behind its line, a comment and a lone backslash apart. -/
theorem read_before (symbols : SymbolTable) (first : Bool) {c : Char} {cs : List Char} (note : c ≠ '%')
    (more : c :: cs ≠ ['\\']) :
    read symbols first c (cs ++ tail) = (read symbols first c cs).before tail := by
  have rules_before : (rules symbols first).findSome? (fun rule => rule (c :: cs ++ tail)) =
      ((rules symbols first).findSome? fun rule => rule (c :: cs)).map (Reading.before tail) := by
    rw [List.map_findSome?]
    exact findSome?_congr fun rule listed => rule_before blank symbols first note more listed
  rw [read, ← List.cons_append, rules_before, read]
  cases (rules symbols first).findSome? fun rule => rule (c :: cs) <;> rfl

end Lexeme

end Blanks

end FormulaMarkup

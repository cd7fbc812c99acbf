import FormulaMarkup.Proofs.Bytes.Lexing
import Mathlib.Computability.Language

/-!
The grammar of lexemes. The scanners go over a line once and never go back, while a grammar asks whether
there is any way to match. They agree since the classes of characters that follow each other in a grammar
have none in common, so a run that has been taken as far as it goes never has to be given back; where they do
agree on more than one match, as for the digits of a number, it is the longest one that is taken. Main
statement: each scanner finds what its grammar matches, and a lexeme is read by the first alternative that
matches.
-/
namespace FormulaMarkup

open scoped Computability

/-! ## Languages -/

namespace Grammar

/-- The texts of one character of a class. -/
def one (p : Char → Bool) : Language Char := {w | ∃ c, p c = true ∧ w = [c]}

def text (w : String) : Language Char := {w.toList}

def oneOrMore (g : Language Char) : Language Char := g * g∗

def maybe (g : Language Char) : Language Char := 1 + g

def digits : Language Char := oneOrMore (one Char.isDigit)

def blanks : Language Char := (one Scan.isBlank)∗

def number : Language Char := digits * maybe (text "." * digits)

def unit : Language Char :=
  text "in" + text "mm" + text "cm" + text "pt" + text "em" + text "ex" + text "pc" + text "bp" + text "dd" +
    text "cc" + text "sp" + text "mu"

def dimension : Language Char := maybe (text "-") * number * blanks * unit

def environmentName : Language Char :=
  blanks * text "\x7b" * oneOrMore (one Char.isAlpha) * maybe (text "*") * text "\x7d"

def operatorName : Language Char :=
  blanks * text "\x7b" * oneOrMore (one Char.isAlpha + one Scan.isBlank + text "*") * text "\x7d"

/-- A text of a language stands at the start of a line. -/
structure Match (g : Language Char) (line taken rest : List Char) : Prop where
  matched : taken ∈ g
  whole : taken ++ rest = line

/-- Of all texts of a language that stand at the start of a line a scanner finds the longest one. -/
def FindsLongest (g : Language Char) (line : List Char) : Option (List Char × List Char) → Prop
  | some (taken, rest) =>
    Match g line taken rest ∧ ∀ other left, Match g line other left → other.length ≤ taken.length
  | none => ∀ taken rest, ¬ Match g line taken rest

/-- A scanner finds the text of a language that stands at the start of a line, and there is only one. -/
def FindsOnly (g : Language Char) (line : List Char) : Option (List Char × List Char) → Prop
  | some (taken, rest) => Match g line taken rest ∧ ∀ other left, Match g line other left → other = taken
  | none => ∀ taken rest, ¬ Match g line taken rest

/-- A scanner that gives just the matches of a language finds the only one. -/
theorem FindsOnly.of_iff {g : Language Char} {line : List Char} {found : Option (List Char × List Char)}
    (same : ∀ taken rest, found = some (taken, rest) ↔ Match g line taken rest) : FindsOnly g line found := by
  cases found with
  | none =>
    intro taken rest matched
    cases (same taken rest).mpr matched
  | some result =>
    obtain ⟨taken, rest⟩ := result
    refine ⟨(same taken rest).mp rfl, fun other left matched => ?_⟩
    have again := (same other left).mpr matched
    simpa using congrArg (Option.map Prod.fst) again.symm

/-! ## What languages hold -/

theorem mem_one {p : Char → Bool} {w : List Char} : w ∈ one p ↔ ∃ c, p c = true ∧ w = [c] := Iff.rfl

theorem mem_text {w : String} {v : List Char} : v ∈ text w ↔ v = w.toList := Iff.rfl

theorem mem_maybe {g : Language Char} {w : List Char} : w ∈ maybe g ↔ w = [] ∨ w ∈ g := by
  rw [maybe, Language.mem_add, Language.mem_one]

theorem mem_star_one {p : Char → Bool} {w : List Char} : w ∈ (one p)∗ ↔ ∀ c ∈ w, p c = true := by
  rw [Language.mem_kstar]
  constructor
  · rintro ⟨parts, rfl, all⟩ c listed
    obtain ⟨part, held, inside⟩ := List.mem_flatten.mp listed
    obtain ⟨d, passes, rfl⟩ := all part held
    rwa [List.mem_singleton.mp inside]
  · intro all
    refine ⟨w.map fun c => [c], by rw [← List.flatMap_def, List.flatMap_singleton'], ?_⟩
    intro part listed
    obtain ⟨c, held, rfl⟩ := List.mem_map.mp listed
    exact ⟨c, all c held, rfl⟩

theorem mem_oneOrMore_one {p : Char → Bool} {w : List Char} :
    w ∈ oneOrMore (one p) ↔ w ≠ [] ∧ ∀ c ∈ w, p c = true := by
  rw [oneOrMore, Language.mem_mul]
  constructor
  · rintro ⟨front, ⟨c, passes, rfl⟩, back, more, rfl⟩
    rw [mem_star_one] at more
    exact ⟨List.cons_ne_nil c _, List.forall_mem_cons.mpr ⟨passes, more⟩⟩
  · rintro ⟨filled, all⟩
    obtain ⟨c, cs, rfl⟩ := List.exists_cons_of_ne_nil filled
    obtain ⟨passes, more⟩ := List.forall_mem_cons.mp all
    exact ⟨[c], ⟨c, passes, rfl⟩, cs, mem_star_one.mpr more, rfl⟩

theorem mem_digits {w : List Char} : w ∈ digits ↔ w ≠ [] ∧ ∀ c ∈ w, c.isDigit = true := mem_oneOrMore_one

/-- What may stand in the name of an operator. -/
def isOperatorPart (c : Char) : Bool := c.isAlpha || Scan.isBlank c || c == '*'

theorem operatorPart_eq : one Char.isAlpha + one Scan.isBlank + text "*" = one isOperatorPart := by
  apply Set.ext
  intro w
  change (w ∈ one Char.isAlpha + one Scan.isBlank + text "*") ↔ w ∈ one isOperatorPart
  rw [Language.mem_add, Language.mem_add, mem_one, mem_one, mem_one, mem_text]
  constructor
  · rintro ((⟨c, letter, rfl⟩ | ⟨c, blank, rfl⟩) | rfl)
    · exact ⟨c, by simp [isOperatorPart, letter], rfl⟩
    · exact ⟨c, by simp [isOperatorPart, blank], rfl⟩
    · exact ⟨'*', rfl, rfl⟩
  · rintro ⟨c, part, rfl⟩
    rw [isOperatorPart, Bool.or_eq_true, Bool.or_eq_true, beq_iff_eq] at part
    rcases part with (letter | blank) | rfl
    · exact .inl (.inl ⟨c, letter, rfl⟩)
    · exact .inl (.inr ⟨c, blank, rfl⟩)
    · exact .inr rfl

/-- The digits of a number, and those behind its point if it has one. -/
theorem mem_number {w : List Char} :
    w ∈ number ↔ ∃ whole ∈ digits, w = whole ∨ ∃ fraction ∈ digits, w = whole ++ '.' :: fraction := by
  rw [number, Language.mem_mul]
  constructor
  · rintro ⟨whole, isWhole, tail, more, rfl⟩
    refine ⟨whole, isWhole, ?_⟩
    rcases mem_maybe.mp more with rfl | pointed
    · exact .inl (List.append_nil whole)
    · obtain ⟨point, rfl, fraction, isFraction, rfl⟩ := Language.mem_mul.mp pointed
      exact .inr ⟨fraction, isFraction, rfl⟩
  · rintro ⟨whole, isWhole, rfl | ⟨fraction, isFraction, rfl⟩⟩
    · exact ⟨w, isWhole, [], mem_maybe.mpr (.inl rfl), List.append_nil w⟩
    · exact ⟨whole, isWhole, _, mem_maybe.mpr (.inr ⟨_, rfl, fraction, isFraction, rfl⟩), rfl⟩

theorem mem_unit {w : List Char} : w ∈ unit ↔ ∃ a b, (a, b) ∈ Scan.units ∧ w = [a, b] := by
  have listed : w ∈ unit ↔ w ∈ Scan.units.map fun unit => [unit.1, unit.2] := by
    simp only [unit, Language.mem_add, mem_text, Scan.units, List.map_cons, List.map_nil, List.mem_cons,
      List.not_mem_nil, or_false, or_assoc]
    rfl
  rw [listed, List.mem_map]
  constructor
  · rintro ⟨⟨a, b⟩, known, rfl⟩
    exact ⟨a, b, known, rfl⟩
  · rintro ⟨a, b, known, rfl⟩
    exact ⟨(a, b), known, rfl⟩

theorem mem_dimension {w : List Char} :
    w ∈ dimension ↔ ∃ sign, (sign = [] ∨ sign = ['-']) ∧ ∃ n ∈ number, ∃ gap,
      (∀ c ∈ gap, Scan.isBlank c = true) ∧ ∃ a b, (a, b) ∈ Scan.units ∧ w = sign ++ (n ++ (gap ++ [a, b])) := by
  simp only [dimension, Language.mem_mul, mem_maybe, mem_text, blanks, mem_star_one, mem_unit]
  constructor
  · rintro ⟨_, ⟨_, ⟨sign, isSign, n, isNumber, rfl⟩, gap, blank, rfl⟩, _, ⟨a, b, known, rfl⟩, rfl⟩
    exact ⟨sign, isSign, n, isNumber, gap, blank, a, b, known, by simp⟩
  · rintro ⟨sign, isSign, n, isNumber, gap, blank, a, b, known, rfl⟩
    exact ⟨_, ⟨_, ⟨sign, isSign, n, isNumber, rfl⟩, gap, blank, rfl⟩, _, ⟨a, b, known, rfl⟩, by simp⟩

theorem mem_environmentName {w : List Char} :
    w ∈ environmentName ↔ ∃ gap, (∀ c ∈ gap, Scan.isBlank c = true) ∧ ∃ name, name ≠ [] ∧
      (∀ c ∈ name, c.isAlpha = true) ∧ ∃ star, (star = [] ∨ star = ['*']) ∧
        w = gap ++ '\x7b' :: (name ++ (star ++ ['\x7d'])) := by
  simp only [environmentName, Language.mem_mul, mem_maybe, mem_text, blanks, mem_star_one, mem_oneOrMore_one]
  constructor
  · rintro ⟨_, ⟨_, ⟨_, ⟨gap, blank, _, rfl, rfl⟩, name, ⟨filled, letters⟩, rfl⟩, star, isStar, rfl⟩, _, rfl, rfl⟩
    exact ⟨gap, blank, name, filled, letters, star, isStar, by simp⟩
  · rintro ⟨gap, blank, name, filled, letters, star, isStar, rfl⟩
    exact ⟨_, ⟨_, ⟨_, ⟨gap, blank, _, rfl, rfl⟩, name, ⟨filled, letters⟩, rfl⟩, star, isStar, rfl⟩, _, rfl,
      by simp⟩

theorem mem_operatorName {w : List Char} :
    w ∈ operatorName ↔ ∃ gap, (∀ c ∈ gap, Scan.isBlank c = true) ∧ ∃ name, name ≠ [] ∧
      (∀ c ∈ name, isOperatorPart c = true) ∧ w = gap ++ '\x7b' :: (name ++ ['\x7d']) := by
  simp only [operatorName, operatorPart_eq, Language.mem_mul, mem_text, blanks, mem_star_one, mem_oneOrMore_one]
  constructor
  · rintro ⟨_, ⟨_, ⟨gap, blank, _, rfl, rfl⟩, name, ⟨filled, parts⟩, rfl⟩, _, rfl, rfl⟩
    exact ⟨gap, blank, name, filled, parts, by simp⟩
  · rintro ⟨gap, blank, name, filled, parts, rfl⟩
    exact ⟨_, ⟨_, ⟨gap, blank, _, rfl, rfl⟩, name, ⟨filled, parts⟩, rfl⟩, _, rfl, by simp⟩

/-! ## Runs -/

/-- A text does not go on with a character of a class. -/
def Stops (p : Char → Bool) (rest : List Char) : Prop := ∀ c ∈ rest.head?, p c = false

theorem Stops.nil {p : Char → Bool} : Stops p [] := nofun

theorem Stops.cons {p : Char → Bool} {c : Char} {cs : List Char} (stops : p c = false) : Stops p (c :: cs) := by
  rintro d ⟨⟩
  exact stops

section Runs

variable {p : Char → Bool} {run rest : List Char}

theorem takeWhile_run (inside : ∀ c ∈ run, p c = true) (stops : Stops p rest) :
    (run ++ rest).takeWhile p = run := by
  rw [List.takeWhile_append_of_pos inside]
  cases rest with
  | nil => simp
  | cons c cs => simp [stops c rfl]

theorem dropWhile_run (inside : ∀ c ∈ run, p c = true) (stops : Stops p rest) :
    (run ++ rest).dropWhile p = rest := by
  rw [List.dropWhile_append_of_pos inside]
  cases rest with
  | nil => rfl
  | cons c cs => simp [stops c rfl]

theorem takeWhile_stops (stops : Stops p rest) : rest.takeWhile p = [] := by
  have nothing : ([] ++ rest).takeWhile p = [] := takeWhile_run nofun stops
  exact nothing

theorem exists_run (p : Char → Bool) (line : List Char) :
    ∃ run rest, line = run ++ rest ∧ (∀ c ∈ run, p c = true) ∧ Stops p rest := by
  refine ⟨line.takeWhile p, line.dropWhile p, List.takeWhile_append_dropWhile.symm, ?_, ?_⟩
  · intro c listed
    exact List.mem_takeWhile_imp listed
  · intro c starts
    have first := List.head?_dropWhile_not p line
    rw [Option.mem_def.mp starts] at first
    simpa using first

/-- A run that stops is all that two ways of taking a line apart can give. -/
theorem run_unique {run' rest' : List Char} (inside : ∀ c ∈ run, p c = true) (stops : Stops p rest)
    (inside' : ∀ c ∈ run', p c = true) (stops' : Stops p rest') (same : run ++ rest = run' ++ rest') :
    run = run' ∧ rest = rest' := by
  have taken := takeWhile_run inside stops
  have left := dropWhile_run inside stops
  rw [same, takeWhile_run inside' stops'] at taken
  rw [same, dropWhile_run inside' stops'] at left
  exact ⟨taken.symm, left.symm⟩

/-- Characters of a class reach no further than a run that stops. -/
theorem length_le_run {front behind : List Char} (inside : ∀ c ∈ front, p c = true) (stops : Stops p rest)
    (same : front ++ behind = run ++ rest) : front.length ≤ run.length := by
  by_contra longer
  obtain ⟨more, rfl⟩ : run <+: front :=
    List.prefix_of_prefix_length_le ⟨rest, same.symm⟩ ⟨behind, rfl⟩ (by omega)
  rw [List.append_assoc] at same
  cases more with
  | nil => simp at longer
  | cons c cs =>
    have start := List.append_cancel_left same
    have passes := inside c (by simp)
    rw [stops c (by rw [← start]; rfl)] at passes
    cases passes

theorem eq_nil_of_stops {front behind : List Char} (inside : ∀ c ∈ front, p c = true)
    (stops : Stops p (front ++ behind)) : front = [] := by
  cases front with
  | nil => rfl
  | cons c cs =>
    have passes := inside c List.mem_cons_self
    rw [stops c rfl] at passes
    cases passes

end Runs

end Grammar

/-! ## Scanners -/

namespace Scan

open Grammar

theorem number?_none {line : List Char} (stops : Stops Char.isDigit line) : number? line = none := by
  rw [number?, takeWhile_stops stops]
  rfl

/-- A point that no digit follows is no part of the number in front of it. -/
theorem number?_whole {whole behind : List Char} (isWhole : whole ∈ digits) (stops : Stops Char.isDigit behind)
    (bare : ∀ cs, behind = '.' :: cs → Stops Char.isDigit cs) :
    number? (whole ++ behind) = some (whole, behind) := by
  obtain ⟨filled, all⟩ := mem_digits.mp isWhole
  unfold number?
  dsimp only
  rw [takeWhile_run all stops, dropWhile_run all stops, if_neg (by simpa using filled)]
  split
  · rename_i fraction
    rw [takeWhile_stops (bare fraction rfl)]
    rfl
  · rfl

theorem number?_fraction {whole fraction rest : List Char} (isWhole : whole ∈ digits)
    (isFraction : fraction ∈ digits) (stops : Stops Char.isDigit rest) :
    number? (whole ++ '.' :: (fraction ++ rest)) = some (whole ++ '.' :: fraction, rest) := by
  obtain ⟨filled, all⟩ := mem_digits.mp isWhole
  obtain ⟨filled', all'⟩ := mem_digits.mp isFraction
  have point : Stops Char.isDigit ('.' :: (fraction ++ rest)) := .cons rfl
  unfold number?
  dsimp only
  rw [takeWhile_run all point, dropWhile_run all point, if_neg (by simpa using filled)]
  simp only [takeWhile_run all' stops, dropWhile_run all' stops]
  rw [if_neg (by simpa using filled')]

/-- No number, a number without a fraction and one with a fraction. -/
theorem number_cases (line : List Char) :
    Stops Char.isDigit line ∨
      (∃ whole ∈ digits, ∃ behind, line = whole ++ behind ∧ Stops Char.isDigit behind ∧
        ∀ cs, behind = '.' :: cs → Stops Char.isDigit cs) ∨
      ∃ whole ∈ digits, ∃ fraction ∈ digits, ∃ rest, line = whole ++ '.' :: (fraction ++ rest) ∧
        Stops Char.isDigit rest := by
  obtain ⟨whole, behind, rfl, all, stops⟩ := exists_run Char.isDigit line
  by_cases filled : whole = []
  · subst filled
    exact .inl stops
  · have isWhole := mem_digits.mpr ⟨filled, all⟩
    by_cases bare : ∀ cs, behind = '.' :: cs → Stops Char.isDigit cs
    · exact .inr (.inl ⟨whole, isWhole, behind, rfl, stops, bare⟩)
    · obtain ⟨cs, rfl, more⟩ : ∃ cs, behind = '.' :: cs ∧ ¬ Stops Char.isDigit cs := by simpa using bare
      obtain ⟨fraction, rest, rfl, all', stops'⟩ := exists_run Char.isDigit cs
      have filled' : fraction ≠ [] := by
        rintro rfl
        exact more stops'
      exact .inr (.inr ⟨whole, isWhole, fraction, mem_digits.mpr ⟨filled', all'⟩, rest, rfl, stops'⟩)

/-- What a number starts with are digits, and a point stops them. -/
theorem digits_of_number {w : List Char} (matched : w ∈ number) (rest : List Char) : ∃ whole ∈ digits, ∃ behind,
    w ++ rest = whole ++ behind ∧ (w = whole ∨ ∃ fraction ∈ digits, w = whole ++ '.' :: fraction ∧
      behind = '.' :: (fraction ++ rest)) := by
  obtain ⟨whole, isWhole, rfl | ⟨fraction, isFraction, rfl⟩⟩ := mem_number.mp matched
  · exact ⟨w, isWhole, rest, rfl, .inl rfl⟩
  · exact ⟨whole, isWhole, '.' :: (fraction ++ rest), by simp, .inr ⟨fraction, isFraction, rfl, rfl⟩⟩

theorem number?_findsLongest (line : List Char) : FindsLongest number line (number? line) := by
  rcases number_cases line with stops | ⟨whole, isWhole, behind, rfl, stops, bare⟩ |
      ⟨whole, isWhole, fraction, isFraction, rest, rfl, stops⟩
  · rw [number?_none stops]
    rintro w rest ⟨matched, rfl⟩
    obtain ⟨whole, isWhole, behind, same, -⟩ := digits_of_number matched rest
    obtain ⟨filled, all⟩ := mem_digits.mp isWhole
    rw [same] at stops
    exact filled (eq_nil_of_stops all stops)
  · rw [number?_whole isWhole stops bare]
    refine ⟨⟨mem_number.mpr ⟨whole, isWhole, .inl rfl⟩, rfl⟩, ?_⟩
    rintro w rest ⟨matched, same⟩
    obtain ⟨whole', isWhole', behind', split, rfl | ⟨fraction, isFraction, rfl, rfl⟩⟩ :=
      digits_of_number matched rest
    · exact length_le_run (mem_digits.mp isWhole').2 stops same
    · -- A fraction would have to start where the digits stop, but no digit follows the point there.
      obtain ⟨filled, all⟩ := mem_digits.mp isFraction
      obtain ⟨rfl, rfl⟩ := run_unique (mem_digits.mp isWhole).2 stops (mem_digits.mp isWhole').2 (.cons rfl)
        (same.symm.trans split)
      exact absurd (eq_nil_of_stops all (bare _ rfl)) filled
  · rw [number?_fraction isWhole isFraction stops]
    refine ⟨⟨mem_number.mpr ⟨whole, isWhole, .inr ⟨fraction, isFraction, rfl⟩⟩, by simp⟩, ?_⟩
    rintro w left ⟨matched, same⟩
    have point : Stops Char.isDigit ('.' :: (fraction ++ rest)) := .cons rfl
    obtain ⟨whole', isWhole', behind', split, rfl | ⟨fraction', isFraction', rfl, rfl⟩⟩ :=
      digits_of_number matched left
    · have short := length_le_run (mem_digits.mp isWhole').2 point same
      rw [List.length_append]
      omega
    · obtain ⟨rfl, more⟩ := run_unique (mem_digits.mp isWhole).2 point (mem_digits.mp isWhole').2 (.cons rfl)
        (same.symm.trans split)
      have short := length_le_run (mem_digits.mp isFraction').2 stops (List.cons.inj more).2.symm
      simpa using short

/-- A number is taken whole where neither a digit nor a point follows it. -/
theorem number?_append {n rest : List Char} (isNumber : n ∈ number) (stops : Stops Char.isDigit rest)
    (point : rest.head? ≠ some '.') : number? (n ++ rest) = some (n, rest) := by
  obtain ⟨whole, isWhole, rfl | ⟨fraction, isFraction, rfl⟩⟩ := mem_number.mp isNumber
  · exact number?_whole isWhole stops fun cs same => absurd (congrArg List.head? same) point
  · rw [List.append_assoc]
    exact number?_fraction isWhole isFraction stops

theorem number_of_number? {line n rest : List Char} (found : number? line = some (n, rest)) : n ∈ number := by
  have longest := number?_findsLongest line
  rw [found] at longest
  exact longest.1.matched

/-- Nothing of a length goes into the number that it starts with. -/
theorem stops_unit {gap : List Char} (blank : ∀ c ∈ gap, isBlank c = true) {a b : Char}
    (known : (a, b) ∈ units) (rest : List Char) :
    Stops Char.isDigit (gap ++ a :: b :: rest) ∧ (gap ++ a :: b :: rest).head? ≠ some '.' ∧
      isBlank a = false := by
  have letters : ∀ unit ∈ units, unit.1.isDigit = false ∧ unit.1 ≠ '.' ∧ isBlank unit.1 = false := by decide
  obtain ⟨digit, point, space⟩ := letters (a, b) known
  cases gap with
  | nil => exact ⟨.cons digit, by simpa using point, space⟩
  | cons c cs =>
    have first := blank c List.mem_cons_self
    rw [isBlank, decide_eq_true_iff] at first
    rcases first with rfl | rfl | rfl | rfl | rfl <;> exact ⟨.cons rfl, by simp, space⟩

theorem quantity?_eq_some_iff {line taken rest : List Char} :
    quantity? line = some (taken, rest) ↔ taken ++ rest = line ∧ ∃ n ∈ number, ∃ gap,
      (∀ c ∈ gap, isBlank c = true) ∧ ∃ a b, (a, b) ∈ units ∧ taken = n ++ (gap ++ [a, b]) := by
  constructor
  · intro found
    refine ⟨append_of_quantity? found, ?_⟩
    unfold quantity? at found
    split at found
    · contradiction
    · rename_i n behind numbered
      obtain ⟨gap, unit, rfl, blank, stops⟩ := exists_run isBlank behind
      rw [takeWhile_run blank stops, dropWhile_run blank stops] at found
      split at found
      · rename_i a b behind
        split at found
        · rename_i known
          obtain ⟨rfl, rfl⟩ := by simpa using found
          exact ⟨n, number_of_number? numbered, gap, blank, a, b, List.contains_iff_mem.mp known, rfl⟩
        · contradiction
      · contradiction
  · rintro ⟨rfl, n, isNumber, gap, blank, a, b, known, rfl⟩
    obtain ⟨stops, point, space⟩ := stops_unit blank known rest
    have unit : Stops isBlank (a :: b :: rest) := .cons space
    have apart : n ++ (gap ++ [a, b]) ++ rest = n ++ (gap ++ a :: b :: rest) := by simp
    rw [apart, quantity?, number?_append isNumber stops point]
    dsimp only
    rw [takeWhile_run blank unit, dropWhile_run blank unit]
    dsimp only
    rw [if_pos (List.contains_iff_mem.mpr known), List.append_assoc]

theorem digit_of_number {n : List Char} (isNumber : n ∈ number) : ∃ c cs, n = c :: cs ∧ c.isDigit = true := by
  obtain ⟨whole, isWhole, behind, same, -⟩ := digits_of_number isNumber []
  obtain ⟨filled, all⟩ := mem_digits.mp isWhole
  obtain ⟨c, cs, rfl⟩ := List.exists_cons_of_ne_nil filled
  rw [List.append_nil] at same
  exact ⟨c, cs ++ behind, same, all c List.mem_cons_self⟩

theorem dimension?_eq_some_iff {line taken rest : List Char} :
    dimension? line = some (taken, rest) ↔ Match dimension line taken rest := by
  have plain {line : List Char} (unsigned : ∀ cs, line ≠ '-' :: cs) : dimension? line = quantity? line := by
    unfold dimension?
    split
    · exact absurd rfl (unsigned _)
    · rfl
  constructor
  · intro found
    refine ⟨?_, append_of_dimension? found⟩
    rw [mem_dimension]
    unfold dimension? at found
    split at found
    · obtain ⟨⟨behind, left⟩, quantity, same⟩ := Option.map_eq_some_iff.mp found
      obtain ⟨rfl, rfl⟩ := by simpa using same
      obtain ⟨-, n, isNumber, gap, blank, a, b, known, rfl⟩ := quantity?_eq_some_iff.mp quantity
      exact ⟨['-'], .inr rfl, n, isNumber, gap, blank, a, b, known, rfl⟩
    · obtain ⟨-, n, isNumber, gap, blank, a, b, known, rfl⟩ := quantity?_eq_some_iff.mp found
      exact ⟨[], .inl rfl, n, isNumber, gap, blank, a, b, known, rfl⟩
  · rintro ⟨matched, rfl⟩
    obtain ⟨sign, rfl | rfl, n, isNumber, gap, blank, a, b, known, rfl⟩ := mem_dimension.mp matched
    · obtain ⟨c, cs, rfl, digit⟩ := digit_of_number isNumber
      rw [plain, quantity?_eq_some_iff]
      · exact ⟨rfl, _, isNumber, gap, blank, a, b, known, rfl⟩
      · rintro behind same
        obtain ⟨rfl, -⟩ := List.cons.inj same
        cases digit
    · have quantity := quantity?_eq_some_iff.mpr
        ⟨rfl (a := n ++ (gap ++ [a, b]) ++ rest), n, isNumber, gap, blank, a, b, known, rfl⟩
      change (quantity? (n ++ (gap ++ [a, b]) ++ rest)).map _ = _
      rw [quantity]
      rfl

theorem environmentName?_eq_some_iff {line taken rest : List Char} :
    environmentName? line = some (taken, rest) ↔ Match environmentName line taken rest := by
  constructor
  · intro found
    refine ⟨?_, append_of_environmentName? found⟩
    obtain ⟨gap, braced, rfl, blank, stops⟩ := exists_run isBlank line
    unfold environmentName? at found
    rw [takeWhile_run blank stops, dropWhile_run blank stops] at found
    split at found
    · rename_i inner
      obtain ⟨name, behind, rfl, letters, stops⟩ := exists_run Char.isAlpha inner
      simp only [takeWhile_run letters stops, dropWhile_run letters stops] at found
      split at found
      · contradiction
      · rename_i filled
        rw [List.isEmpty_iff] at filled
        rw [mem_environmentName]
        split at found
        · obtain ⟨rfl, rfl⟩ := by simpa using found
          exact ⟨gap, blank, name, filled, letters, [], .inl rfl, by simp⟩
        · obtain ⟨rfl, rfl⟩ := by simpa using found
          exact ⟨gap, blank, name, filled, letters, ['*'], .inr rfl, by simp⟩
        · contradiction
    · contradiction
  · rintro ⟨matched, rfl⟩
    obtain ⟨gap, blank, name, filled, letters, star, isStar, rfl⟩ := mem_environmentName.mp matched
    have brace : Stops isBlank ('\x7b' :: (name ++ (star ++ '\x7d' :: rest))) := .cons rfl
    have ends : Stops Char.isAlpha (star ++ '\x7d' :: rest) := by
      rcases isStar with rfl | rfl <;> exact .cons rfl
    have apart : gap ++ '\x7b' :: (name ++ (star ++ ['\x7d'])) ++ rest =
        gap ++ '\x7b' :: (name ++ (star ++ '\x7d' :: rest)) := by simp
    unfold environmentName?
    rw [apart, takeWhile_run blank brace, dropWhile_run blank brace]
    simp only [takeWhile_run letters ends, dropWhile_run letters ends]
    rw [if_neg (by simpa using filled)]
    rcases isStar with rfl | rfl <;> simp

theorem operatorName?_eq_some_iff {line taken rest : List Char} :
    operatorName? line = some (taken, rest) ↔ Match operatorName line taken rest := by
  constructor
  · intro found
    refine ⟨?_, append_of_braced? found⟩
    obtain ⟨gap, braced, rfl, blank, stops⟩ := exists_run isBlank line
    change braced? isOperatorPart _ = _ at found
    unfold braced? at found
    rw [takeWhile_run blank stops, dropWhile_run blank stops] at found
    split at found
    · rename_i inner
      obtain ⟨name, behind, rfl, parts, stops⟩ := exists_run isOperatorPart inner
      simp only [takeWhile_run parts stops, dropWhile_run parts stops] at found
      split at found
      · split at found
        · contradiction
        · rename_i filled
          rw [List.isEmpty_iff] at filled
          obtain ⟨rfl, rfl⟩ := by simpa using found
          exact mem_operatorName.mpr ⟨gap, blank, name, filled, parts, by simp⟩
      · contradiction
    · contradiction
  · rintro ⟨matched, rfl⟩
    obtain ⟨gap, blank, name, filled, parts, rfl⟩ := mem_operatorName.mp matched
    have brace : Stops isBlank ('\x7b' :: (name ++ '\x7d' :: rest)) := .cons rfl
    have ends : Stops isOperatorPart ('\x7d' :: rest) := .cons rfl
    have apart : gap ++ '\x7b' :: (name ++ ['\x7d']) ++ rest = gap ++ '\x7b' :: (name ++ '\x7d' :: rest) := by
      simp
    change braced? isOperatorPart _ = _
    unfold braced?
    rw [apart, takeWhile_run blank brace, dropWhile_run blank brace]
    simp only [takeWhile_run parts ends, dropWhile_run parts ends]
    rw [if_neg (by simpa using filled)]
    simp

/-- A command: a name of letters, as far as letters go. -/
structure Command (line name behind : List Char) : Prop where
  filled : name ≠ []
  letters : ∀ c ∈ name, c.isAlpha = true
  ends : Stops Char.isAlpha behind
  whole : '\\' :: name ++ behind = line

theorem command?_eq_some_iff {line name behind : List Char} :
    command? line = some (name, behind) ↔ Command line name behind := by
  constructor
  · intro found
    have whole := append_of_command? found
    unfold command? at found
    split at found
    · rename_i cs
      obtain ⟨run, rest, rfl, letters, stops⟩ := exists_run Char.isAlpha cs
      rw [takeWhile_run letters stops, dropWhile_run letters stops] at found
      split at found
      · contradiction
      · rename_i filled
        obtain ⟨rfl, rfl⟩ := by simpa using found
        exact ⟨by simpa using filled, letters, stops, whole⟩
    · contradiction
  · rintro ⟨filled, letters, ends, rfl⟩
    rw [List.cons_append, command?, takeWhile_run letters ends, dropWhile_run letters ends,
      if_neg (by simpa using filled)]

theorem Command.unique {line name name' behind behind' : List Char} (command : Command line name behind)
    (command' : Command line name' behind') : name = name' ∧ behind = behind' := by
  have same := command?_eq_some_iff.mpr command
  rw [command?_eq_some_iff.mpr command'] at same
  simpa [eq_comm] using same

/-- The same command with something else behind it. -/
theorem Command.replaced {line name behind rest : List Char} (command : Command line name behind)
    (ends : Stops Char.isAlpha rest) : Command ('\\' :: (name ++ rest)) name rest :=
  ⟨command.filled, command.letters, ends, rfl⟩

end Scan

end FormulaMarkup

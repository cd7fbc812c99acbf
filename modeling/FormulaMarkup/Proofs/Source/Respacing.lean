import FormulaMarkup.Proofs.Source.Alternatives
import FormulaMarkup.Proofs.Source.TrailingBlanks

/-!
Respacing. The tokens of a line are written one behind the other with one space between them, and lexed
again. A space ends each of the tokens, so what has to be seen is that no token takes in those behind it: no
word starts with a unit, a brace stands alone and so opens no name, and whether a fraction or an operator
name takes what follows is decided by characters that respacing keeps in order. Main statement: the tokens of
one line, with some lines excepted, are read again.
-/
namespace FormulaMarkup.Source

open Grammar (Match Stops)
open Lexeme (Alternative read_eq_iff)
open Scan (Command)

/-- A token that reads as it is written, or so but for its blanks. -/
def AsWritten (segment : Segment) : Prop :=
  segment.text = none ∨ segment.text = some segment.source ∨
    segment.text = some (segment.source.filter (! Scan.isBlank ·))

instance (segment : Segment) : Decidable (AsWritten segment) :=
  inferInstanceAs (Decidable (_ ∨ _ ∨ _))

/-- What is lexed has no backslash alone, no command that stands for a symbol, no text command and no operator
with a blank name among its tokens. -/
structure Respaceable (segments : List Segment) : Prop where
  noBackslash : "\\" ∉ textsOf segments
  noAlias : ∀ segment ∈ segments, AsWritten segment
  noText : ∀ name ∈ Lexeme.textCommands, "\\" ++ name ∉ textsOf segments
  noBlankName : "\\operatorname\x7b\x7d" ∉ textsOf segments
  noEmptyName : ¬ ["\\operatorname", "\x7b", "\x7d"] <:+: textsOf segments

/-- No text command is skipped together with an empty argument. -/
def Undropped (segments : List Segment) : Prop :=
  ∀ segment ∈ segments, segment.text = none → segment.source.head? ≠ some '\\'

theorem textsOf_append (front back : List Segment) : textsOf (front ++ back) = textsOf front ++ textsOf back := by
  simp [textsOf]

theorem Respaceable.append_left {front back : List Segment} (all : Respaceable (front ++ back)) :
    Respaceable front where
  noBackslash held := all.noBackslash (by simp [textsOf_append, held])
  noAlias segment listed := all.noAlias segment (List.mem_append_left back listed)
  noText name known held := all.noText name known (by simp [textsOf_append, held])
  noBlankName held := all.noBlankName (by simp [textsOf_append, held])
  noEmptyName held := all.noEmptyName (textsOf_append front back ▸ held.trans (List.prefix_append _ _).isInfix)

theorem Respaceable.append_right {front back : List Segment} (all : Respaceable (front ++ back)) :
    Respaceable back where
  noBackslash held := all.noBackslash (by simp [textsOf_append, held])
  noAlias segment listed := all.noAlias segment (List.mem_append_right front listed)
  noText name known held := all.noText name known (by simp [textsOf_append, held])
  noBlankName held := all.noBlankName (by simp [textsOf_append, held])
  noEmptyName held := all.noEmptyName (textsOf_append front back ▸ held.trans (List.suffix_append _ _).isInfix)

theorem Undropped.append_left {front back : List Segment} (all : Undropped (front ++ back)) : Undropped front :=
  fun segment listed => all segment (List.mem_append_left back listed)

theorem Undropped.append_right {front back : List Segment} (all : Undropped (front ++ back)) : Undropped back :=
  fun segment listed => all segment (List.mem_append_right front listed)

/-! ## Texts without their blanks -/

/-- A text without its blanks. -/
def printed (w : List Char) : List Char := w.filter (! Scan.isBlank ·)

theorem printed_cons {c : Char} (visible : Scan.isBlank c = false) (cs : List Char) :
    printed (c :: cs) = c :: printed cs :=
  List.filter_cons_of_pos (by simp [visible])

theorem printed_append (v w : List Char) : printed (v ++ w) = printed v ++ printed w := List.filter_append ..

theorem printed_blanks {w : List Char} (blank : ∀ c ∈ w, Scan.isBlank c = true) : printed w = [] :=
  List.filter_eq_nil_iff.mpr fun c listed => by simp [blank c listed]

theorem printed_eq_self {w : List Char} (visible : ∀ c ∈ w, Scan.isBlank c = false) : printed w = w :=
  List.filter_eq_self.mpr fun c listed => by simp [visible c listed]

theorem printed_printed (w : List Char) : printed (printed w) = printed w := by
  simp [printed]

theorem visible_of_isDigit {c : Char} (digit : c.isDigit = true) : Scan.isBlank c = false := by
  by_contra blank
  rw [not_isDigit_of_isBlank c (by simpa using blank)] at digit
  cases digit

theorem visible_of_isAlpha {c : Char} (letter : c.isAlpha = true) : Scan.isBlank c = false := by
  by_contra blank
  rw [not_isAlpha_of_isBlank c (by simpa using blank)] at letter
  cases letter

theorem visible_of_number {n : List Char} (isNumber : n ∈ Grammar.number) :
    ∀ c ∈ n, Scan.isBlank c = false := by
  have digits {w : List Char} (all : w ∈ Grammar.digits) (c : Char) (listed : c ∈ w) : Scan.isBlank c = false :=
    visible_of_isDigit ((Grammar.mem_digits.mp all).2 c listed)
  intro c listed
  obtain ⟨whole, isWhole, rfl | ⟨fraction, isFraction, rfl⟩⟩ := Grammar.mem_number.mp isNumber
  · exact digits isWhole c listed
  · rcases List.mem_append.mp listed with held | held
    · exact digits isWhole c held
    · rcases List.mem_cons.mp held with rfl | held
      · rfl
      · exact digits isFraction c held

theorem printed_dimension {w : List Char} (matched : w ∈ Grammar.dimension) : printed w ∈ Grammar.dimension := by
  have letters : ∀ unit ∈ Scan.units, Scan.isBlank unit.1 = false ∧ Scan.isBlank unit.2 = false := by decide
  obtain ⟨sign, isSign, n, isNumber, gap, blank, a, b, known, rfl⟩ := Grammar.mem_dimension.mp matched
  have unit : printed [a, b] = [a, b] := by
    rw [printed_cons (letters _ known).1, printed_cons (letters _ known).2]
    rfl
  have minus : printed sign = sign := by rcases isSign with rfl | rfl <;> rfl
  rw [printed_append, printed_append, printed_append, printed_blanks blank, unit, minus,
    printed_eq_self (visible_of_number isNumber)]
  exact Grammar.mem_dimension.mpr ⟨sign, isSign, n, isNumber, [], nofun, a, b, known, rfl⟩

theorem printed_environmentName {w : List Char} (matched : w ∈ Grammar.environmentName) :
    printed w ∈ Grammar.environmentName := by
  obtain ⟨gap, blank, name, filled, letters, star, isStar, rfl⟩ := Grammar.mem_environmentName.mp matched
  have visible : printed name = name := printed_eq_self fun c listed => visible_of_isAlpha (letters c listed)
  have starred : printed star = star := by rcases isStar with rfl | rfl <;> rfl
  rw [printed_append, printed_blanks blank, printed_cons rfl, printed_append, visible, printed_append, starred]
  exact Grammar.mem_environmentName.mpr ⟨[], nofun, name, filled, letters, star, isStar, rfl⟩

/-- An operator name without its blanks is one unless nothing of it is left. -/
theorem printed_operatorName {w : List Char} (matched : w ∈ Grammar.operatorName) :
    printed w = ['\x7b', '\x7d'] ∨ printed w ∈ Grammar.operatorName := by
  obtain ⟨gap, blank, name, -, parts, rfl⟩ := Grammar.mem_operatorName.mp matched
  rw [printed_append, printed_blanks blank, printed_cons rfl, printed_append]
  by_cases filled : printed name = []
  · rw [filled]
    exact .inl rfl
  · exact .inr (Grammar.mem_operatorName.mpr ⟨[], nofun, printed name, filled,
      fun c listed => parts c (List.mem_of_mem_filter listed), rfl⟩)

/-! ## How words start -/

/-- The characters that a word of more than one character starts with. -/
def goesOn (c : Char) : Bool := c == '-' || c.isDigit || c == '.' || c == '\\'

section Words

variable {symbols : SymbolTable} {first : Bool}

theorem alias_unrespaceable {line name rest : List Char} (command : Command line name rest) (c : Char) :
    ¬ Respaceable [⟨'\\' :: name, some [c]⟩] := by
  intro respaceable
  have plain : printed ('\\' :: name) = '\\' :: name := by
    rw [printed_cons rfl, printed_eq_self fun d listed => visible_of_isAlpha (command.letters d listed)]
  obtain none | whole | bare := respaceable.noAlias _ (List.mem_singleton.mpr rfl)
  · cases none
  · exact command.filled (List.cons.inj (Option.some.inj whole)).2.symm
  · have same : [c] = printed ('\\' :: name) := Option.some.inj bare
    rw [plain] at same
    exact command.filled (List.cons.inj same).2.symm

/-- The word of a lexeme starts as the lexeme does, and has no other characters unless it can go on. Only a
comment has no word. -/
theorem reads_word {kind : Alternative} {c : Char} {cs : List Char} {r : Reading}
    (visible : Scan.isBlank c = false) (reads : Lexeme.Reads symbols first kind (c :: cs) r)
    (respaceable : Respaceable r.segments) (undropped : Undropped r.segments) :
    textsOf r.segments = [] ∧ r.rest = [] ∨
      ∃ more words, textsOf r.segments = String.ofList (c :: more) :: words ∧ (goesOn c = false → more = []) := by
  have opens := reads.opens
  have command {name behind : List Char} (command : Command (c :: cs) name behind) :
      c = '\\' := (List.cons.inj command.whole).1.symm
  cases reads with
  | @dimension _ taken rest matched =>
    have goes : goesOn c = true := by
      have opens : (c == '-' || c.isDigit) = true := opens
      rw [goesOn, opens]
      rfl
    have shorter := Scan.length_of_dimension? (Scan.dimension?_eq_some_iff.mpr matched)
    cases taken with
    | nil =>
      rw [← matched.whole] at shorter
      exact absurd shorter (Nat.lt_irrefl _)
    | cons d more =>
      obtain ⟨rfl, -⟩ := List.cons.inj matched.whole
      refine .inr ⟨printed more, [], ?_, by simp [goes]⟩
      rw [← printed_cons visible]
      rfl
  | comment => exact .inl ⟨rfl, rfl⟩
  | scriptDigit => exact .inr ⟨[], _, rfl, fun _ => rfl⟩
  | number matched longest =>
    have digit : c.isDigit = true := opens
    obtain ⟨d, more, rfl, -⟩ := Scan.digit_of_number matched.matched
    obtain ⟨rfl, -⟩ := List.cons.inj matched.whole
    exact .inr ⟨more, [], rfl, by simp [goesOn, digit]⟩
  | point => exact .inr ⟨_, _, rfl, fun stops => absurd stops (by decide)⟩
  | escaped => exact .inr ⟨_, _, rfl, fun stops => absurd stops (by decide)⟩
  | environmentHeader named =>
    obtain rfl := command named
    exact .inr ⟨_, _, congrArg (fun w => [String.ofList w]) (printed_cons rfl _),
      fun stops => absurd stops (by decide)⟩
  | operatorName named =>
    obtain rfl := command named
    exact .inr ⟨_, _, congrArg (fun w => [String.ofList w]) (printed_cons rfl _),
      fun stops => absurd stops (by decide)⟩
  | text named =>
    obtain rfl := command named
    exact .inr ⟨_, _, rfl, fun stops => absurd stops (by decide)⟩
  | emptyText named => exact absurd rfl (undropped _ List.mem_cons_self rfl)
  | oneArgument named =>
    obtain rfl := command named
    exact .inr ⟨_, _, rfl, fun stops => absurd stops (by decide)⟩
  | twoArguments named =>
    obtain rfl := command named
    exact .inr ⟨_, _, rfl, fun stops => absurd stops (by decide)⟩
  | command named =>
    obtain rfl := command named
    exact .inr ⟨_, _, rfl, fun stops => absurd stops (by decide)⟩
  | symbol named => exact absurd respaceable (alias_unrespaceable named _)
  | character => exact .inr ⟨[], _, rfl, fun _ => rfl⟩

/-- A line has no words, or its first word starts with the first character of the line that is no blank. -/
theorem words_open (line : List Char) (respaceable : Respaceable (lineSegments symbols first line))
    (undropped : Undropped (lineSegments symbols first line)) :
    textsOf (lineSegments symbols first line) = [] ∨
      ∃ c cs more words, line.dropWhile Scan.isBlank = c :: cs ∧ Scan.isBlank c = false ∧
        textsOf (lineSegments symbols first line) = String.ofList (c :: more) :: words ∧
          (goesOn c = false → more = []) := by
  fun_induction lineSegments symbols first line with
  | case1 => exact .inl rfl
  | case2 first c cs blank ih =>
    rw [List.dropWhile_cons_of_pos blank]
    rw [← List.singleton_append] at respaceable undropped
    exact ih respaceable.append_right undropped.append_right
  | case3 first c cs lexeme reading ih =>
    have visible : Scan.isBlank c = false := by simpa using lexeme
    obtain ⟨kind, reads, -⟩ := read_eq_iff.mp (rfl (a := Lexeme.read symbols first c cs))
    rw [List.dropWhile_cons_of_neg lexeme, textsOf_append]
    obtain ⟨nothing, rest⟩ | ⟨more, words, starts, single⟩ :=
      reads_word visible reads respaceable.append_left undropped.append_left
    · have left : reading.rest = [] := rest
      have none : textsOf reading.segments = [] := nothing
      rw [none, left, lineSegments_nil]
      exact .inl rfl
    · have starts : textsOf reading.segments = String.ofList (c :: more) :: words := starts
      rw [starts]
      exact .inr ⟨c, cs, more, _, rfl, visible, rfl, single⟩

theorem behind_cons (cs : List Char) (words : List String) :
    behind (String.ofList cs :: words) = ' ' :: (cs ++ behind words) := by
  simp [behind]

theorem stops_behind {p : Char → Bool} (space : p ' ' = false) (words : List String) : Stops p (behind words) := by
  rcases behind_cases words with empty | ⟨cs, starts⟩
  · rw [empty]
    exact .nil
  · rw [starts]
    exact .cons space

section Behind

variable {line : List Char} (respaceable : Respaceable (lineSegments symbols first line))
  (undropped : Undropped (lineSegments symbols first line))

include respaceable undropped

/-- What starts behind the spaces is the first word, which starts where the line does. -/
theorem behind_open {gap rest : List Char} {d : Char} (blank : ∀ c ∈ gap, Scan.isBlank c = true)
    (visible : Scan.isBlank d = false) (same : gap ++ d :: rest = behind (textsOf (lineSegments symbols first line))) :
    ∃ cs more words, line.dropWhile Scan.isBlank = d :: cs ∧
      textsOf (lineSegments symbols first line) = String.ofList (d :: more) :: words ∧
        rest = more ++ behind words ∧ (goesOn d = false → more = []) := by
  have stops : Stops Scan.isBlank (d :: rest) := .cons visible
  have left := Grammar.dropWhile_run blank stops
  obtain empty | ⟨c, cs, more, words, starts, visible', split, single⟩ := words_open line respaceable undropped
  · rw [same, empty] at left
    cases left
  · have space : Scan.isBlank ' ' = true := rfl
    rw [same, split, behind_cons, List.dropWhile_cons_of_pos space, List.cons_append,
      List.dropWhile_cons_of_neg (by simp [visible'])] at left
    obtain ⟨rfl, rfl⟩ := List.cons.inj left
    exact ⟨cs, more, words, starts, split, rfl, single⟩

theorem no_unit_behind {gap rest : List Char} {a b : Char} (blank : ∀ c ∈ gap, Scan.isBlank c = true)
    (same : gap ++ a :: b :: rest = behind (textsOf (lineSegments symbols first line))) : (a, b) ∉ Scan.units := by
  intro known
  have letters : ∀ unit ∈ Scan.units, Scan.isBlank unit.1 = false ∧ goesOn unit.1 = false ∧ unit.2 ≠ ' ' := by
    decide
  obtain ⟨visible, stops, space⟩ := letters (a, b) known
  obtain ⟨cs, more, words, -, -, after, single⟩ := behind_open respaceable undropped blank visible same
  rw [single stops, List.nil_append] at after
  have starts := stops_behind (p := (· == b)) (beq_eq_false_iff_ne.mpr space.symm) words
  rw [← after] at starts
  simpa using starts b rfl

theorem no_environment_behind (taken rest : List Char) :
    ¬ Match Grammar.environmentName (behind (textsOf (lineSegments symbols first line))) taken rest := by
  rintro ⟨matched, same⟩
  obtain ⟨gap, blank, name, filled, letters, star, isStar, rfl⟩ := Grammar.mem_environmentName.mp matched
  obtain ⟨c, cs, rfl⟩ := List.exists_cons_of_ne_nil filled
  have letter := letters c List.mem_cons_self
  rw [List.append_assoc, List.cons_append] at same
  obtain ⟨_, more, words, -, -, after, single⟩ := behind_open respaceable undropped blank rfl same
  rw [single rfl, List.nil_append] at after
  have starts := stops_behind (p := Char.isAlpha) rfl words
  rw [← after] at starts
  rw [starts c rfl] at letter
  cases letter

/-- Where a line does not go on with a short argument, its words do not. -/
theorem no_short_behind (stops : Stops Lexeme.isShortArgument (line.dropWhile Scan.isBlank)) {gap rest : List Char}
    {d : Char} (blank : ∀ c ∈ gap, Scan.isBlank c = true) (visible : Scan.isBlank d = false)
    (same : gap ++ d :: rest = behind (textsOf (lineSegments symbols first line))) :
    Lexeme.isShortArgument d = false := by
  obtain ⟨cs, more, words, starts, -⟩ := behind_open respaceable undropped blank visible same
  rw [starts] at stops
  exact stops d rfl

end Behind

/-! ## Words that are read alone -/

theorem number_of_digit {c : Char} (digit : c.isDigit = true) : [c] ∈ Grammar.number :=
  Grammar.mem_number.mpr ⟨[c], Grammar.mem_digits.mpr ⟨by simp, by simpa using digit⟩, .inl rfl⟩

theorem reads_digit {c : Char} (digit : c.isDigit = true) (cs : List Char) :
    ∃ r, Lexeme.Reads symbols first .number (c :: cs) r := by
  have longest := Scan.number?_findsLongest (c :: cs)
  cases found : Scan.number? (c :: cs) with
  | none =>
    rw [found] at longest
    exact absurd ⟨number_of_digit digit, rfl⟩ (longest [c] cs)
  | some result =>
    rw [found] at longest
    exact ⟨_, .number longest.1 longest.2⟩

/-- Where no digit follows, no script and no length starts with a character that is no digit. -/
theorem not_reads_before {c : Char} {cs : List Char} (digit : c.isDigit = false) (stops : Stops Char.isDigit cs)
    {kind : Alternative} (early : kind ∈ [.dimension, .scriptDigit]) (r : Reading) :
    ¬ Lexeme.Reads symbols first kind (c :: cs) r := by
  intro reads
  cases reads with
  | scriptDigit isMark isDigit =>
    rw [stops _ rfl] at isDigit
    cases isDigit
  | dimension matched =>
    obtain ⟨sign, isSign, n, isNumber, gap, blank, a, b, known, rfl⟩ := Grammar.mem_dimension.mp matched.matched
    obtain ⟨d, ds, rfl, isDigit⟩ := Scan.digit_of_number isNumber
    have whole := matched.whole
    rcases isSign with rfl | rfl
    · obtain ⟨rfl, -⟩ := List.cons.inj whole
      rw [digit] at isDigit
      cases isDigit
    · obtain ⟨-, rfl⟩ := List.cons.inj whole
      rw [stops d rfl] at isDigit
      cases isDigit
  | _ => exact absurd early (by decide)

/-- A character that is neither a digit nor special is read alone where no length and no script starts. -/
theorem read_single {c : Char} {cs : List Char} (digit : c.isDigit = false) (plain : c ∉ ['%', '.', '\\'])
    (dimension : ∀ r, ¬ Lexeme.Reads symbols first .dimension (c :: cs) r)
    (script : ∀ r, ¬ Lexeme.Reads symbols first .scriptDigit (c :: cs) r) :
    Lexeme.read symbols first c cs = ⟨[.token [c]], cs⟩ := by
  simp only [List.mem_cons, List.not_mem_nil, or_false, not_or, ← beq_eq_false_iff_ne] at plain
  obtain ⟨percent, point, backslash⟩ := plain
  refine read_eq_iff.mpr ⟨.character, .character, fun earlier listed other => ?_⟩
  cases earlier with
  | dimension => exact dimension other
  | comment => exact Lexeme.not_reads percent
  | scriptDigit => exact script other
  | number => exact Lexeme.not_reads digit
  | point => exact Lexeme.not_reads point
  | character => exact absurd listed (by decide)
  | _ => exact Lexeme.not_reads backslash

/-- A character that may stand in an operator name, or a brace, is read alone whatever follows it. -/
theorem read_part {c : Char} (cs : List Char) (visible : Scan.isBlank c = false)
    (part : Grammar.isOperatorPart c = true ∨ c = '\x7b') :
    goesOn c = false ∧ Lexeme.read symbols first c cs = ⟨[.token [c]], cs⟩ := by
  have other (d : Char) (others : Grammar.isOperatorPart d = false ∧ d ≠ '\x7b') : c ≠ d := by
    rintro rfl
    rcases part with held | held
    · rw [others.1] at held
      cases held
    · exact others.2 held
  have digit : c.isDigit = false := by
    by_contra isDigit
    rw [Bool.not_eq_false, Bytes.isDigit_iff] at isDigit
    rcases part with held | rfl
    · rw [Grammar.isOperatorPart, visible, Bool.or_false, Bool.or_eq_true, Bytes.isAlpha_iff, beq_iff_eq] at held
      rcases held with letter | rfl
      · omega
      · exact absurd isDigit (by decide)
    · exact absurd isDigit (by decide)
  have stops : goesOn c = false := by
    simp [goesOn, digit, other '-' (by decide), other '.' (by decide), other '\\' (by decide)]
  have plain : c ∉ ['%', '.', '\\'] := by
    simp [other '%' (by decide), other '.' (by decide), other '\\' (by decide)]
  refine ⟨stops, read_single digit plain (fun r => Lexeme.not_reads ?_) fun r => Lexeme.not_reads ?_⟩
  · simp [Alternative.opens, other '-' (by decide), digit]
  · simp [Alternative.opens, other '_' (by decide), other '^' (by decide)]

/-! ## Operator names -/

/-- Words that are the parts of an operator name and then a closing brace stand in a line that goes on like
an operator name, if not one without any part. -/
theorem operator_behind {line : List Char} (respaceable : Respaceable (lineSegments symbols first line))
    (undropped : Undropped (lineSegments symbols first line)) (name rest : List Char)
    (parts : ∀ c ∈ name, Grammar.isOperatorPart c = true)
    (same : name ++ '\x7d' :: rest = behind (textsOf (lineSegments symbols first line))) :
    ∃ content left, line = content ++ '\x7d' :: left ∧ (∀ c ∈ content, Grammar.isOperatorPart c = true) ∧
      (content = [] → ["\x7d"] <+: textsOf (lineSegments symbols first line)) := by
  revert name
  fun_induction lineSegments symbols first line with
  | case1 =>
    intro name parts same
    simp [textsOf, behind] at same
  | case2 first c cs blank ih =>
    intro name parts same
    rw [← List.singleton_append] at respaceable undropped
    obtain ⟨content, left, rfl, inside, -⟩ := ih respaceable.append_right undropped.append_right name parts same
    refine ⟨c :: content, left, rfl, List.forall_mem_cons.mpr ⟨?_, inside⟩,
      fun empty => absurd empty (List.cons_ne_nil c content)⟩
    simp [Grammar.isOperatorPart, blank]
  | case3 first c cs lexeme reading ih =>
    intro name parts same
    have visible : Scan.isBlank c = false := by simpa using lexeme
    obtain ⟨kind, reads, -⟩ := read_eq_iff.mp (rfl (a := reading))
    rw [textsOf_append] at same ⊢
    obtain ⟨nothing, left⟩ | ⟨more, words, starts, single⟩ :=
      reads_word visible reads respaceable.append_left undropped.append_left
    · rw [nothing, left, lineSegments_nil] at same
      simp [textsOf, behind] at same
    · rw [starts, List.cons_append, behind_cons, List.append_eq_cons_iff] at same
      obtain ⟨-, brace⟩ | ⟨name, rfl, same⟩ := same
      · cases brace
      rw [List.cons_append, eq_comm, List.append_eq_cons_iff] at same
      obtain ⟨rfl, brace⟩ | ⟨name, rfl, same⟩ := same
      · obtain ⟨rfl, -⟩ := List.cons.inj brace
        rw [starts, single rfl]
        exact ⟨[], cs, rfl, List.forall_mem_nil _, fun _ => ⟨words ++ _, rfl⟩⟩
      · obtain ⟨part, parts⟩ := List.forall_mem_cons.mp (List.forall_mem_cons.mp parts).2
        obtain ⟨stops, alone⟩ : goesOn c = false ∧ reading = ⟨[.token [c]], cs⟩ := read_part cs visible (.inl part)
        rw [alone] at starts
        obtain ⟨-, rfl⟩ := List.cons.inj starts
        rw [single stops, alone] at same
        obtain ⟨content, left, further, inside, -⟩ :=
          ih respaceable.append_right undropped.append_right name parts (by rw [alone]; exact same.symm)
        rw [alone] at further
        have split : cs = content ++ '\x7d' :: left := further
        exact ⟨c :: content, left, by rw [split]; rfl, List.forall_mem_cons.mpr ⟨part, inside⟩,
          fun empty => absurd empty (List.cons_ne_nil c content)⟩

theorem lineSegments_blanks {blanks : List Char} (blank : ∀ c ∈ blanks, Scan.isBlank c = true) (line : List Char) :
    lineSegments symbols first (blanks ++ line) =
      blanks.map (fun c => Segment.gap [c]) ++ lineSegments symbols first line := by
  induction blanks with
  | nil => rfl
  | cons c cs ih =>
    obtain ⟨space, more⟩ := List.forall_mem_cons.mp blank
    rw [List.cons_append, lineSegments_blank space, ih more]
    rfl

theorem textsOf_gaps (blanks : List Char) : textsOf (blanks.map fun c => Segment.gap [c]) = [] := by
  induction blanks with
  | nil => rfl
  | cons c cs ih => exact ih

/-- Where a line does not go on with an operator name, its words do not, but for a name without any part. -/
theorem no_operator_behind {line : List Char} (respaceable : Respaceable (lineSegments symbols first line))
    (undropped : Undropped (lineSegments symbols first line))
    (filled : ¬ ["\x7b", "\x7d"] <+: textsOf (lineSegments symbols first line))
    (none : ∀ taken rest, ¬ Match Grammar.operatorName line taken rest) (taken rest : List Char) :
    ¬ Match Grammar.operatorName (behind (textsOf (lineSegments symbols first line))) taken rest := by
  rintro ⟨matched, same⟩
  obtain ⟨gap, blank, name, -, parts, rfl⟩ := Grammar.mem_operatorName.mp matched
  rw [List.append_assoc, List.cons_append, List.append_assoc, List.singleton_append] at same
  obtain ⟨cs, more, words, opened, split, after, single⟩ := behind_open respaceable undropped blank rfl same
  obtain ⟨run, left, rfl, blank', stops⟩ := Grammar.exists_run Scan.isBlank line
  rw [Grammar.dropWhile_run blank' stops] at opened
  subst opened
  have brace : Lexeme.read symbols first '\x7b' cs = ⟨[.token ['\x7b']], cs⟩ := (read_part cs rfl (.inr rfl)).2
  have segments : lineSegments symbols first (run ++ '\x7b' :: cs) =
      (run.map (fun c => Segment.gap [c]) ++ [.token ['\x7b']]) ++ lineSegments symbols false cs := by
    rw [lineSegments_blanks blank', lineSegments_lexeme (by decide), brace, List.append_assoc]
  rw [segments] at respaceable undropped
  have texts : textsOf (lineSegments symbols first (run ++ '\x7b' :: cs)) =
      "\x7b" :: textsOf (lineSegments symbols false cs) := by
    rw [segments, textsOf_append, textsOf_append, textsOf_gaps]
    rfl
  rw [texts] at split filled
  obtain ⟨-, rfl⟩ := List.cons.inj split
  rw [single rfl, List.nil_append] at after
  obtain ⟨content, left, rfl, inside, bare⟩ :=
    operator_behind respaceable.append_right undropped.append_right name rest parts after
  by_cases nothing : content = []
  · exact filled ((List.prefix_cons_inj _).mpr (bare nothing))
  · refine none (run ++ '\x7b' :: (content ++ ['\x7d'])) left ⟨?_, by simp⟩
    exact Grammar.mem_operatorName.mpr ⟨run, blank', content, nothing, inside, rfl⟩

/-! ## Words that are read again -/

/-- A word behind a space, from what is read there on. -/
theorem textsOf_again {c : Char} {cs rest : List Char} {words : List String} {segments : List Segment}
    (visible : Scan.isBlank c = false)
    (read : Lexeme.read symbols first c (cs ++ behind words) = ⟨segments, rest⟩) :
    textsOf (lineSegments symbols first (behind (String.ofList (c :: cs) :: words))) =
      textsOf segments ++ textsOf (lineSegments symbols false rest) := by
  rw [behind_cons, lineSegments_blank rfl, List.cons_append, lineSegments_lexeme (by simp [visible]), read]
  exact textsOf_append segments _

theorem head_behind {c : Char} (other : c ≠ ' ') (words : List String) : (behind words).head? ≠ some c := by
  rcases behind_cases words with empty | ⟨cs, starts⟩
  · rw [empty]
    nofun
  · rw [starts]
    exact fun same => other (Option.some.inj same).symm

theorem read_dimension {c : Char} {cs : List Char} (matched : c :: cs ∈ Grammar.dimension) (rest : List Char) :
    Lexeme.read symbols first c (cs ++ rest) = ⟨[.withoutBlanks (c :: cs)], rest⟩ :=
  read_eq_iff.mpr ⟨.dimension, .dimension ⟨matched, rfl⟩, fun _ listed => absurd listed List.not_mem_nil⟩

theorem read_number_again {c : Char} {cs : List Char} (isNumber : c :: cs ∈ Grammar.number) {words : List String}
    (apart : ∀ gap a b rest, (∀ c ∈ gap, Scan.isBlank c = true) → gap ++ a :: b :: rest = behind words →
      (a, b) ∉ Scan.units) :
    Lexeme.read symbols first c (cs ++ behind words) = ⟨[.token (c :: cs)], behind words⟩ := by
  obtain ⟨d, ds, same, digit⟩ := Scan.digit_of_number isNumber
  obtain ⟨rfl, -⟩ := List.cons.inj same
  have found := Scan.number?_append isNumber (stops_behind (p := Char.isDigit) rfl words) (head_behind (by decide) words)
  have longest := Scan.number?_findsLongest (c :: cs ++ behind words)
  rw [found] at longest
  refine read_eq_iff.mpr ⟨.number, .number longest.1 longest.2, fun earlier listed other => ?_⟩
  have mark (d : Char) (foreign : d.isDigit = false) : (c == d) = false := by
    rw [beq_eq_false_iff_ne]
    rintro rfl
    rw [digit] at foreign
    cases foreign
  cases earlier with
  | dimension =>
    intro reads
    cases reads with
    | @dimension _ _ left matched =>
      obtain ⟨sign, isSign, n, isNumber', gap, blank, a, b, known, rfl⟩ :=
        Grammar.mem_dimension.mp matched.matched
      have whole := matched.whole
      rcases isSign with rfl | rfl
      · obtain ⟨stops, point, -⟩ := Scan.stops_unit blank known left
        have again := Scan.number?_append isNumber' stops point
        have split : n ++ (gap ++ a :: b :: left) = c :: cs ++ behind words := by
          rw [List.cons_append, ← whole]
          simp
        rw [split, found] at again
        have rests := congrArg Prod.snd (Option.some.inj again)
        exact apart gap a b left blank rests.symm known
      · obtain ⟨rfl, -⟩ := List.cons.inj whole
        cases digit
  | comment => exact Lexeme.not_reads (mark '%' rfl)
  | scriptDigit => exact Lexeme.not_reads (by simp [Alternative.opens, mark '_' rfl, mark '^' rfl])
  | _ => exact absurd listed (by decide)

theorem read_point_again {digits : List Char} (all : ∀ c ∈ digits, c.isDigit = true) (words : List String) :
    Lexeme.read symbols first '.' (digits ++ behind words) = ⟨[.token ('.' :: digits)], behind words⟩ := by
  refine read_eq_iff.mpr ⟨.point, .point all (stops_behind rfl words), fun earlier listed other => ?_⟩
  cases earlier with
  | dimension | comment | scriptDigit | number => exact Lexeme.not_reads rfl
  | _ => exact absurd listed (by decide)

theorem read_escaped_again {c : Char} (known : c ∈ Lexeme.escapable ∨ Scan.isBlank c = true) (rest : List Char) :
    Lexeme.read symbols first '\\' (c :: rest) = ⟨[.token ['\\', c]], rest⟩ := by
  refine read_eq_iff.mpr ⟨.escaped, .escaped known, fun earlier listed other => ?_⟩
  cases earlier with
  | dimension | comment | scriptDigit | number | point => exact Lexeme.not_reads rfl
  | _ => exact absurd listed (by decide)

/-- A command that takes nothing along is read again where it has nothing to take along. -/
theorem read_command_again {name rest : List Char} (command : Command ('\\' :: (name ++ rest)) name rest)
    (plain : ∀ c, ¬ Lexeme.Alias symbols first name c)
    (header : String.ofList name = "begin" ∨ String.ofList name = "end" →
      ∀ taken left, ¬ Match Grammar.environmentName rest taken left)
    (operator : String.ofList name = "operatorname" → ∀ taken left, ¬ Match Grammar.operatorName rest taken left)
    (text : String.ofList name ∉ Lexeme.textCommands)
    (fraction : String.ofList name ∈ Lexeme.shortFractions → ∀ gap c left, (∀ c ∈ gap, Scan.isBlank c = true) →
      Lexeme.isShortArgument c = true → gap ++ c :: left ≠ rest) :
    Lexeme.read symbols first '\\' (name ++ rest) = ⟨[.token ('\\' :: name)], rest⟩ := by
  refine read_eq_iff.mpr ⟨.command, .command command plain, fun earlier listed other => ?_⟩
  cases earlier with
  | command | character => exact absurd listed (by decide)
  | environmentHeader =>
    intro reads
    cases reads with
    | environmentHeader command' known matched =>
      obtain ⟨rfl, rfl⟩ := command.unique command'
      exact header known _ _ matched
  | operatorName =>
    intro reads
    cases reads with
    | operatorName command' known matched =>
      obtain ⟨rfl, rfl⟩ := command.unique command'
      exact operator known _ _ matched
  | textCommand => exact fun reads => text (reads.named command (by decide))
  | shortFraction =>
    intro reads
    cases reads with
    | oneArgument command' known blank short =>
      obtain ⟨rfl, same⟩ := command.unique command'
      exact fraction known _ _ _ blank short same.symm
    | twoArguments command' known blank short =>
      obtain ⟨rfl, same⟩ := command.unique command'
      exact fraction known _ _ _ blank short same.symm
  | _ => exact Lexeme.not_reads_command command (by decide)

/-! ## Lexemes that are read again -/

theorem stops_name {gap rest : List Char} (blank : ∀ c ∈ gap, Scan.isBlank c = true) :
    Stops Char.isAlpha (gap ++ '\x7b' :: rest) := by
  cases gap with
  | nil => exact .cons rfl
  | cons c cs => exact .cons (not_isAlpha_of_isBlank c (blank c List.mem_cons_self))

theorem printed_command {line name behind : List Char} (command : Command line name behind) (taken : List Char) :
    printed ('\\' :: name ++ taken) = '\\' :: (name ++ printed taken) := by
  rw [List.cons_append, printed_cons rfl, printed_append,
    printed_eq_self fun c listed => visible_of_isAlpha (command.letters c listed)]

/-- The words of a lexeme are read again in front of those of what it leaves. -/
def Again (symbols : SymbolTable) (first : Bool) (r : Reading) : Prop :=
  textsOf (lineSegments symbols first (behind (textsOf r.segments ++ textsOf (lineSegments symbols false r.rest)))) =
    textsOf r.segments ++
      textsOf (lineSegments symbols false (behind (textsOf (lineSegments symbols false r.rest))))

section Again

variable {line name after rest : List Char}

theorem text_command (name : List Char) : "\\" ++ String.ofList name = String.ofList ('\\' :: name) := by
  rw [← String.toList_inj]
  simp

theorem text_header (command : Command line name after) (taken : List Char) :
    textsOf [.withoutBlanks ('\\' :: name ++ taken)] = [String.ofList ('\\' :: (name ++ printed taken))] :=
  congrArg (fun w => [String.ofList w]) (printed_command command taken)

/-- A command with a name in braces is read again without its blanks. -/
theorem again_header {kind : Alternative} {taken gap inside : List Char} (command : Command line name after)
    (blank : ∀ c ∈ gap, Scan.isBlank c = true) (braced : printed taken = gap ++ '\x7b' :: inside)
    (known : String.ofList name ∈ kind.names)
    (reads : ∀ {line more}, Command line name (printed taken ++ more) → Lexeme.Reads symbols first kind line
      ⟨[.withoutBlanks ('\\' :: name ++ printed taken)], more⟩) :
    Again symbols first ⟨[.withoutBlanks ('\\' :: name ++ taken)], rest⟩ := by
  have read (more : List Char) : Lexeme.read symbols first '\\' (name ++ printed taken ++ more) =
      ⟨[.withoutBlanks ('\\' :: name ++ printed taken)], more⟩ := by
    have ends : Stops Char.isAlpha (printed taken ++ more) := by
      rw [braced, List.append_assoc]
      exact stops_name blank
    have command := command.replaced ends
    rw [List.append_assoc]
    exact read_eq_iff.mpr ⟨kind, reads command, Lexeme.not_reads_earlier command known⟩
  rw [Again, text_header command, List.singleton_append, textsOf_again rfl (read _), text_header command,
    printed_printed]

theorem again_environmentHeader {taken : List Char} (command : Command line name after)
    (known : String.ofList name = "begin" ∨ String.ofList name = "end")
    (matched : taken ∈ Grammar.environmentName) :
    Again symbols first ⟨[.withoutBlanks ('\\' :: name ++ taken)], rest⟩ := by
  have again := printed_environmentName matched
  obtain ⟨gap, blank, inside, -, -, star, -, braced⟩ := Grammar.mem_environmentName.mp again
  exact again_header command blank braced (by simpa [Alternative.names] using known) fun command =>
    .environmentHeader command known ⟨again, rfl⟩

theorem again_operatorName {taken : List Char} (command : Command line name after)
    (known : String.ofList name = "operatorname") (matched : taken ∈ Grammar.operatorName)
    (respaceable : Respaceable [.withoutBlanks ('\\' :: name ++ taken)]) :
    Again symbols first ⟨[.withoutBlanks ('\\' :: name ++ taken)], rest⟩ := by
  obtain bare | again := printed_operatorName matched
  · have letters : name = "operatorname".toList := by rw [← known, String.toList_ofList]
    refine absurd ?_ respaceable.noBlankName
    rw [text_header command, bare, letters]
    exact List.mem_singleton.mpr rfl
  · obtain ⟨gap, blank, inside, -, -, braced⟩ := Grammar.mem_operatorName.mp again
    exact again_header command blank braced (by simpa [Alternative.names] using known) fun command =>
      .operatorName command known ⟨again, rfl⟩

theorem again_dimension {c : Char} {cs taken : List Char} (visible : Scan.isBlank c = false)
    (matched : Match Grammar.dimension (c :: cs) taken rest) :
    Again symbols first ⟨[.withoutBlanks taken], rest⟩ := by
  have again := printed_dimension matched.matched
  have shorter := Scan.length_of_dimension? (Scan.dimension?_eq_some_iff.mpr matched)
  cases taken with
  | nil =>
    rw [← matched.whole] at shorter
    exact absurd shorter (Nat.lt_irrefl _)
  | cons d more =>
    obtain ⟨rfl, -⟩ := List.cons.inj matched.whole
    rw [printed_cons visible] at again
    have text (w : List Char) : textsOf [.withoutBlanks (d :: w)] = [String.ofList (d :: printed w)] :=
      congrArg (fun w => [String.ofList w]) (printed_cons visible w)
    rw [Again, text, List.singleton_append, textsOf_again visible (read_dimension again _), text, printed_printed]

/-- A lexeme that is one token, and is read alone before the words that follow it. -/
theorem again_token {c : Char} {cs : List Char} (visible : Scan.isBlank c = false)
    (read : Lexeme.read symbols first c (cs ++ behind (textsOf (lineSegments symbols false rest))) =
      ⟨[.token (c :: cs)], behind (textsOf (lineSegments symbols false rest))⟩) :
    Again symbols first ⟨[.token (c :: cs)], rest⟩ :=
  textsOf_again visible read

theorem again_number {c : Char} {cs taken : List Char} (visible : Scan.isBlank c = false)
    (matched : Match Grammar.number (c :: cs) taken rest)
    (respaceable : Respaceable (lineSegments symbols false rest))
    (undropped : Undropped (lineSegments symbols false rest)) : Again symbols first ⟨[.token taken], rest⟩ := by
  obtain ⟨d, more, rfl, -⟩ := Scan.digit_of_number matched.matched
  obtain ⟨rfl, -⟩ := List.cons.inj matched.whole
  exact again_token visible (read_number_again matched.matched fun gap a b left blank =>
    no_unit_behind respaceable undropped blank)

theorem again_scriptDigit {mark digit : Char} (isMark : mark = '_' ∨ mark = '^') (isDigit : digit.isDigit = true)
    (respaceable : Respaceable (lineSegments symbols false rest))
    (undropped : Undropped (lineSegments symbols false rest)) :
    Again symbols first ⟨[.token [mark], .token [digit]], rest⟩ := by
  have number : Lexeme.read symbols false digit ([] ++ behind (textsOf (lineSegments symbols false rest))) =
      ⟨[.token [digit]], behind (textsOf (lineSegments symbols false rest))⟩ :=
    read_number_again (number_of_digit isDigit) fun gap a b left blank => no_unit_behind respaceable undropped blank
  have marked : Lexeme.read symbols first mark
      ([] ++ behind (String.ofList [digit] :: textsOf (lineSegments symbols false rest))) =
        ⟨[.token [mark]], behind (String.ofList [digit] :: textsOf (lineSegments symbols false rest))⟩ := by
    have stops := stops_behind (p := Char.isDigit) rfl
      (String.ofList [digit] :: textsOf (lineSegments symbols false rest))
    rcases isMark with rfl | rfl <;>
      exact read_single rfl (by decide) (not_reads_before rfl stops (by decide))
        (not_reads_before rfl stops (by decide))
  have visible : Scan.isBlank mark = false := by rcases isMark with rfl | rfl <;> rfl
  have texts : textsOf [.token [mark], .token [digit]] = [String.ofList [mark], String.ofList [digit]] := rfl
  rw [Again, texts]
  exact (textsOf_again visible marked).trans
    (congrArg (_ :: ·) (textsOf_again (visible_of_isDigit isDigit) number))

/-- A fraction is read alone where no short argument follows it. -/
theorem stops_fraction {line name rest : List Char} (command : Command line name rest)
    (known : String.ofList name ∈ Lexeme.shortFractions)
    (none : ∀ r, ¬ Lexeme.Reads symbols first .shortFraction line r) :
    Stops Lexeme.isShortArgument (rest.dropWhile Scan.isBlank) := by
  obtain ⟨gap, arguments, rfl, blank, stops⟩ := Grammar.exists_run Scan.isBlank rest
  rw [Grammar.dropWhile_run blank stops]
  intro upper starts
  by_contra short
  rw [Bool.not_eq_false] at short
  cases arguments with
  | nil => cases starts
  | cons c between =>
    cases starts
    obtain ⟨gap', left, rfl, blank', stops'⟩ := Grammar.exists_run Scan.isBlank between
    by_cases other : Stops Lexeme.isShortArgument left
    · exact none _ (.oneArgument command known blank short blank' stops' other)
    · cases left with
      | nil => exact other .nil
      | cons under left =>
        have short' : Lexeme.isShortArgument under = true := by
          by_contra plain
          exact other (.cons (by simpa using plain))
        exact none _ (.twoArguments command known blank short blank' short')

theorem again_command (command : Command line name rest) (plain : ∀ c, ¬ Lexeme.Alias symbols first name c)
    (none : ∀ earlier ∈ Alternative.command.earlier, ∀ r, ¬ Lexeme.Reads symbols first earlier line r)
    (respaceable : Respaceable ([.token ('\\' :: name)] ++ lineSegments symbols false rest))
    (undropped : Undropped ([.token ('\\' :: name)] ++ lineSegments symbols false rest)) :
    Again symbols first ⟨[.token ('\\' :: name)], rest⟩ := by
  have right := respaceable.append_right
  have right' := undropped.append_right
  have texts : textsOf ([.token ('\\' :: name)] ++ lineSegments symbols false rest) =
      String.ofList ('\\' :: name) :: textsOf (lineSegments symbols false rest) := textsOf_append _ _
  refine again_token rfl (read_command_again (command.replaced (stops_behind rfl _)) plain ?_ ?_ ?_ ?_)
  · exact fun _ => no_environment_behind right right'
  · intro known
    refine no_operator_behind right right' (fun starts => respaceable.noEmptyName ?_) fun taken left matched =>
      none .operatorName (by decide) _ (.operatorName command known matched)
    have letters : name = "operatorname".toList := by rw [← known, String.toList_ofList]
    rw [texts, letters]
    exact ((List.prefix_cons_inj _).mpr starts).isInfix
  · intro known
    refine respaceable.noText _ known ?_
    rw [texts, text_command]
    exact List.mem_cons_self
  · intro known gap c left blank short same
    have stops := stops_fraction command known fun r => none .shortFraction (by decide) r
    rw [no_short_behind right right' stops blank (Lexeme.visible_of_short short) same] at short
    cases short

theorem again_oneArgument {gap gap' : List Char} {upper : Char} {rest : List Char}
    (command : Command line name (gap ++ upper :: (gap' ++ rest)))
    (known : String.ofList name ∈ Lexeme.shortFractions) (short : Lexeme.isShortArgument upper = true)
    (blank' : ∀ c ∈ gap', Scan.isBlank c = true) (ends : Stops Scan.isBlank rest)
    (other : Stops Lexeme.isShortArgument rest)
    (respaceable : Respaceable (lineSegments symbols false (gap' ++ rest)))
    (undropped : Undropped (lineSegments symbols false (gap' ++ rest))) :
    Again symbols first ⟨[.token ('\\' :: name), .gap gap, .token [upper]], gap' ++ rest⟩ := by
  have stops : Stops Lexeme.isShortArgument ((gap' ++ rest).dropWhile Scan.isBlank) := by
    rwa [Grammar.dropWhile_run blank' ends]
  have space : ∀ c ∈ [' '], Scan.isBlank c = true := List.forall_mem_singleton.mpr rfl
  obtain ⟨gap'', left, split, blank'', ends''⟩ :=
    Grammar.exists_run Scan.isBlank (behind (textsOf (lineSegments symbols false (gap' ++ rest))))
  have other'' : Stops Lexeme.isShortArgument left := by
    intro d starts
    cases left with
    | nil => cases starts
    | cons e left =>
      cases starts
      exact no_short_behind respaceable undropped stops blank'' (ends'' d rfl) split.symm
  have read : Lexeme.read symbols first '\\'
      (name ++ behind (String.ofList [upper] :: textsOf (lineSegments symbols false (gap' ++ rest)))) =
        ⟨[.token ('\\' :: name), .gap [' '], .token [upper]],
          behind (textsOf (lineSegments symbols false (gap' ++ rest)))⟩ := by
    rw [behind_cons, split]
    have command : Command _ name ([' '] ++ upper :: (gap'' ++ left)) := command.replaced (.cons rfl)
    exact read_eq_iff.mpr ⟨.shortFraction, .oneArgument command known space short blank'' ends'' other'',
      Lexeme.not_reads_earlier command known⟩
  have texts : textsOf [.token ('\\' :: name), .gap gap, .token [upper]] =
      [String.ofList ('\\' :: name), String.ofList [upper]] := rfl
  rw [Again, texts]
  exact textsOf_again rfl read

theorem again_twoArguments {gap gap' : List Char} {upper under : Char} {rest : List Char}
    (command : Command line name (gap ++ upper :: (gap' ++ under :: rest)))
    (known : String.ofList name ∈ Lexeme.shortFractions) (short : Lexeme.isShortArgument upper = true)
    (short' : Lexeme.isShortArgument under = true) :
    Again symbols first ⟨[.token ('\\' :: name), .gap gap, .token [upper], .gap gap', .token [under]], rest⟩ := by
  have space : ∀ c ∈ [' '], Scan.isBlank c = true := List.forall_mem_singleton.mpr rfl
  have read (words : List String) : Lexeme.read symbols first '\\'
      (name ++ behind (String.ofList [upper] :: String.ofList [under] :: words)) =
        ⟨[.token ('\\' :: name), .gap [' '], .token [upper], .gap [' '], .token [under]], behind words⟩ := by
    rw [behind_cons, behind_cons]
    have command : Command _ name ([' '] ++ upper :: ([' '] ++ under :: behind words)) :=
      command.replaced (.cons rfl)
    exact read_eq_iff.mpr ⟨.shortFraction, .twoArguments command known space short space short',
      Lexeme.not_reads_earlier command known⟩
  have texts : textsOf [.token ('\\' :: name), .gap gap, .token [upper], .gap gap', .token [under]] =
      [String.ofList ('\\' :: name), String.ofList [upper], String.ofList [under]] := rfl
  rw [Again, texts]
  exact textsOf_again rfl (read _)

theorem again_character {c : Char} (visible : Scan.isBlank c = false)
    (none : ∀ earlier ∈ Alternative.character.earlier, ∀ r, ¬ Lexeme.Reads symbols first earlier (c :: rest) r)
    (respaceable : Respaceable [.token [c]]) : Again symbols first ⟨[.token [c]], rest⟩ := by
  have digit : c.isDigit = false := by
    by_contra held
    obtain ⟨r, reads⟩ : ∃ r, Lexeme.Reads symbols first .number (c :: rest) r :=
      reads_digit (by simpa using held) rest
    exact none .number (by decide) r reads
  have plain : c ∉ ['%', '.', '\\'] := by
    simp only [List.mem_cons, List.not_mem_nil, or_false]
    rintro (rfl | rfl | rfl)
    · exact none .comment (by decide) _ .comment
    · obtain ⟨digits, left, rfl, all, ends⟩ := Grammar.exists_run Char.isDigit rest
      exact none .point (by decide) _ (.point all ends)
    · exact respaceable.noBackslash (List.mem_singleton.mpr rfl)
  have stops := stops_behind (p := Char.isDigit) rfl (textsOf (lineSegments symbols false rest))
  exact again_token visible (read_single digit plain (not_reads_before digit stops (by decide))
    (not_reads_before digit stops (by decide)))

end Again

/-! ## Lines that are read again -/

/-- Whatever a lexeme is, its words are read again. -/
theorem reads_again {kind : Alternative} {c : Char} {cs : List Char} {r : Reading}
    (visible : Scan.isBlank c = false) (reads : Lexeme.Reads symbols first kind (c :: cs) r)
    (none : ∀ earlier ∈ kind.earlier, ∀ other, ¬ Lexeme.Reads symbols first earlier (c :: cs) other)
    (respaceable : Respaceable (r.segments ++ lineSegments symbols false r.rest))
    (undropped : Undropped (r.segments ++ lineSegments symbols false r.rest)) : Again symbols first r := by
  have left := respaceable.append_left
  have right := respaceable.append_right
  have right' := undropped.append_right
  cases reads with
  | dimension matched => exact again_dimension visible matched
  | comment => simp [Again, textsOf, Segment.gap, behind, lineSegments_nil]
  | scriptDigit isMark isDigit => exact again_scriptDigit isMark isDigit right right'
  | number matched longest => exact again_number visible matched right right'
  | point all ends => exact again_token rfl (read_point_again all _)
  | escaped known => exact again_token rfl (read_escaped_again known _)
  | environmentHeader command known matched => exact again_environmentHeader command known matched.matched
  | operatorName command known matched => exact again_operatorName command known matched.matched left
  | @text _ name gap content rest command known =>
    exact absurd (text_command name ▸ List.mem_cons_self) (left.noText _ known)
  | emptyText => exact absurd rfl (undropped.append_left _ List.mem_cons_self rfl)
  | oneArgument command known blank short blank' ends other =>
    exact again_oneArgument command known short blank' ends other right right'
  | twoArguments command known blank short blank' short' => exact again_twoArguments command known short short'
  | command command plain => exact again_command command plain none respaceable undropped
  | symbol command => exact absurd left (alias_unrespaceable command _)
  | character => exact again_character visible none left

theorem textsOf_respaced (line : List Char) (respaceable : Respaceable (lineSegments symbols first line))
    (undropped : Undropped (lineSegments symbols first line)) :
    textsOf (lineSegments symbols first (behind (textsOf (lineSegments symbols first line)))) =
      textsOf (lineSegments symbols first line) := by
  fun_induction lineSegments symbols first line with
  | case1 => simp [textsOf, behind, lineSegments_nil]
  | case2 first c cs blank ih =>
    rw [← List.singleton_append] at respaceable undropped
    exact ih respaceable.append_right undropped.append_right
  | case3 first c cs lexeme reading ih =>
    obtain ⟨kind, reads, none⟩ := read_eq_iff.mp (rfl (a := reading))
    have again := reads_again (by simpa using lexeme) reads none respaceable undropped
    rw [Again, ih respaceable.append_right undropped.append_right] at again
    rw [textsOf_append]
    exact again

end Words

/-- The words of a line are of its characters. -/
theorem mem_of_mem_words {segments : List Segment} (written : ∀ segment ∈ segments, AsWritten segment) {c : Char}
    {word : String} (listed : word ∈ textsOf segments) (held : c ∈ word.toList) : c ∈ Segment.sourceOf segments := by
  obtain ⟨text, kept, rfl⟩ := List.mem_map.mp listed
  obtain ⟨segment, inside, same⟩ := List.mem_filterMap.mp kept
  rw [String.toList_ofList] at held
  refine List.mem_flatMap.mpr ⟨segment, inside, ?_⟩
  rcases written segment inside with none | whole | bare
  · rw [none] at same
    cases same
  · rw [whole] at same
    rwa [Option.some.inj same]
  · rw [bare] at same
    rw [← Option.some.inj same] at held
    exact List.mem_of_mem_filter held

/-- The tokens of one line, written with single spaces between them, are lexed to tokens with the same texts,
where the line has no lone backslash, no command that stands for a symbol, no operator with a blank name, and no
text command, be it kept or skipped. -/
theorem texts_respaced (symbols : SymbolTable) {source : String} (flat : '\n' ∉ source.toList)
    (respaceable : Respaceable (segments symbols source.toList))
    (undropped : Undropped (segments symbols source.toList)) :
    (tokens symbols (" ".intercalate ((tokens symbols source).map (·.text)))).map (·.text) =
      (tokens symbols source).map (·.text) := by
  have line : segments symbols source.toList = lineSegments symbols true source.toList := segments_flat flat
  have words : (tokens symbols source).map (·.text) = textsOf (segments symbols source.toList) :=
    tokensFrom_texts 0 _
  have again := textsOf_respaced source.toList (line ▸ respaceable) (line ▸ undropped)
  rw [← line] at again
  have free : ∀ word ∈ textsOf (segments symbols source.toList), '\n' ∉ word.toList := fun word listed held =>
    flat (sourceOf_segments symbols source.toList ▸ mem_of_mem_words respaceable.noAlias listed held)
  rw [words, tokens, tokensFrom_texts]
  generalize textsOf (segments symbols source.toList) = texts at again free ⊢
  cases texts with
  | nil =>
    rw [String.intercalate_nil, String.toList_empty, segments_flat List.not_mem_nil]
    exact again
  | cons word rest =>
    have start : behind (word :: rest) = ' ' :: (word.toList ++ behind rest) := rfl
    have flat' : '\n' ∉ word.toList ++ behind rest := by
      intro held
      rcases List.mem_append.mp held with held | held
      · exact free word List.mem_cons_self held
      · obtain ⟨next, listed, held⟩ := List.mem_flatMap.mp held
        exact free next (List.mem_cons_of_mem word listed) (by simpa using held)
    rw [start, lineSegments_blank rfl] at again
    rw [toList_intercalate_cons, segments_flat flat']
    exact again

theorem texts_respaced_fraction :
    Respaceable (segments ⟨[]⟩ "\\frac1 x-2 cm\\begin \x7ba*\x7d%".toList) ∧
      (tokens ⟨[]⟩ (" ".intercalate ((tokens ⟨[]⟩ "\\frac1 x-2 cm\\begin \x7ba*\x7d%").map (·.text)))).map (·.text) =
        (tokens ⟨[]⟩ "\\frac1 x-2 cm\\begin \x7ba*\x7d%").map (·.text) := by
  have respaceable : Respaceable (segments ⟨[]⟩ "\\frac1 x-2 cm\\begin \x7ba*\x7d%".toList) := by
    constructor <;> decide +kernel
  exact ⟨respaceable, texts_respaced ⟨[]⟩ (by decide) respaceable (by unfold Undropped; decide +kernel)⟩

/-- A text command that is skipped keeps a fraction from taking the digits behind it, but leaves no token. -/
theorem dropped_text_splits_number :
    '\n' ∉ "\\frac\\text\x7b\x7d12".toList ∧ Respaceable (segments ⟨[]⟩ "\\frac\\text\x7b\x7d12".toList) ∧
      (tokens ⟨[]⟩ "\\frac\\text\x7b\x7d12").map (·.text) = ["\\frac", "12"] ∧
      (tokens ⟨[]⟩ (" ".intercalate ["\\frac", "12"])).map (·.text) = ["\\frac", "1", "2"] := by
  refine ⟨by decide, ?_, by decide +kernel, by decide +kernel⟩
  constructor <;> decide +kernel

end FormulaMarkup.Source

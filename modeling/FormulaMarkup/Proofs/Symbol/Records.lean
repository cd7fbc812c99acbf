import FormulaMarkup.Symbol.Record
import Mathlib.Data.List.Forall2
import Mathlib.Data.List.Induction
import Mathlib.Data.List.TakeWhile
import Mathlib.Data.Nat.Digits.Defs

/-!
The form of a symbol file, as what is written down and not as it is read. A text is lines with line feeds
between them; a record is fields with carets between them; a code is digits with a sign in front of them or
none; a cross reference is a marker with a command behind it. Main statement: the records that the reader of
a line gives are those that the line has the form of.
-/
namespace FormulaMarkup.SymbolFile

/-! ## Lines -/

/-- A line end takes one carriage return in front of it along. -/
def withoutReturn (line : List Char) : List Char :=
  if line.getLast? = some '\r' then line.dropLast else line

/-- The lines of a text. What stands behind the last line feed is a line if it is not empty. -/
def lines (text : List Char) : List (List Char) :=
  let pieces := text.splitOn '\n'
  pieces.dropLast.map withoutReturn ++ pieces.getLast?.toList.filter (· ≠ [])

theorem lines_flat {line : List Char} (flat : '\n' ∉ line) :
    lines line = if line = [] then [] else [line] := by
  rw [lines, List.splitOn_eq_singleton flat]
  by_cases empty : line = [] <;> simp [empty]

theorem lines_feed {line : List Char} (flat : '\n' ∉ line) (rest : List Char) :
    lines (line ++ '\n' :: rest) = withoutReturn line :: lines rest := by
  obtain ⟨piece, pieces, split⟩ := List.exists_cons_of_ne_nil (List.splitOn_ne_nil '\n' rest)
  rw [lines, List.splitOn_append_cons_self_of_not_mem flat, lines, split]
  rfl

theorem endOfLine_eq (line : List Char) :
    SymbolRecord.linesOf.endOfLine line = withoutReturn line.reverse := by
  unfold SymbolRecord.linesOf.endOfLine withoutReturn
  cases line with
  | nil => rfl
  | cons c cs =>
    by_cases ret : c = '\r'
    · subst ret
      simp
    · simp [ret]

/-- The line that has been begun is in front of the text that is left. -/
theorem go_eq {line : List Char} (flat : '\n' ∉ line) (text : List Char) :
    SymbolRecord.linesOf.go line text = lines (line.reverse ++ text) := by
  induction text generalizing line with
  | nil =>
    rw [List.append_nil, lines_flat (by simpa using flat), SymbolRecord.linesOf.go]
    simp [List.isEmpty_iff]
  | cons c rest ih =>
    by_cases feed : c = '\n'
    · subst feed
      rw [lines_feed (by simpa using flat), SymbolRecord.linesOf.go, ih List.not_mem_nil, endOfLine_eq]
      rfl
    · have more : '\n' ∉ c :: line := by simp [flat, Ne.symm feed]
      rw [SymbolRecord.linesOf.go, ih more]
      · simp
      · exact feed

theorem linesOf_eq (text : List Char) : SymbolRecord.linesOf text = lines text :=
  go_eq List.not_mem_nil text

/-! ## Fields -/

/-- A line that is no comment, and that is these fields with carets between them but for the spaces at its
two ends. -/
structure HasFields (line : List Char) (fields : List (List Char)) : Prop where
  said : line.head? ≠ some '#'
  nonempty : fields ≠ []
  apart : ∀ field ∈ fields, '^' ∉ field
  between : ∃ front core back, line = List.replicate front ' ' ++ core ++ List.replicate back ' ' ∧
    core.head? ≠ some ' ' ∧ core.getLast? ≠ some ' ' ∧ core = ['^'].intercalate fields

theorem fieldsOf_eq (line : List Char) : SymbolRecord.fieldsOf line = line.splitOn '^' := by
  induction line with
  | nil => rfl
  | cons c rest ih =>
    obtain ⟨field, fields, split⟩ := List.exists_cons_of_ne_nil (List.splitOn_ne_nil '^' rest)
    by_cases caret : c = '^'
    · subst caret
      rw [SymbolRecord.fieldsOf, ih, List.splitOn_cons_eq_if_modifyHead]
      simp
    · rw [SymbolRecord.fieldsOf, ih, List.splitOn_cons_eq_if_modifyHead, split]
      · simp [caret]
      · exact caret

theorem caret_notMem_fieldsOf (line : List Char) :
    ∀ field ∈ SymbolRecord.fieldsOf line, '^' ∉ field := by
  fun_induction SymbolRecord.fieldsOf line with
  | case1 => simp
  | case2 rest ih => simpa using ih
  | case3 c rest caret none ih => simpa using Ne.symm caret
  | case4 c rest caret field fields found ih =>
    rw [found] at ih
    simpa [Ne.symm caret] using ih

theorem replicate_of_all {line : List Char} (all : ∀ c ∈ line, c = ' ') :
    line = List.replicate line.length ' ' :=
  List.eq_replicate_of_mem all

theorem dropWhile_spaces (count : Nat) {line : List Char} (start : line.head? ≠ some ' ') :
    (List.replicate count ' ' ++ line).dropWhile (· = ' ') = line := by
  rw [List.dropWhile_append_of_pos (by simp)]
  cases line with
  | nil => rfl
  | cons c cs => exact List.dropWhile_cons_of_neg (by simpa using start)

theorem head?_dropWhile_spaces (line : List Char) : (line.dropWhile (· = ' ')).head? ≠ some ' ' := by
  intro start
  have := List.head?_dropWhile_not (fun c : Char => decide (c = ' ')) line
  rw [start] at this
  simp at this

theorem spaces_before (line : List Char) :
    line = List.replicate (line.takeWhile (· = ' ')).length ' ' ++ line.dropWhile (· = ' ') := by
  have all : ∀ c ∈ line.takeWhile (· = ' '), c = ' ' := fun c mem => by
    simpa using List.mem_takeWhile_imp mem
  rw [← replicate_of_all all, List.takeWhile_append_dropWhile]

/-- What is between the spaces at the two ends of a line. -/
theorem trimSpaces_eq {front back : Nat} {core : List Char} (start : core.head? ≠ some ' ')
    (stop : core.getLast? ≠ some ' ') :
    SymbolRecord.trimSpaces (List.replicate front ' ' ++ core ++ List.replicate back ' ') = core := by
  unfold SymbolRecord.trimSpaces
  cases core with
  | nil => simp [List.replicate_append_replicate]
  | cons c cs =>
    rw [List.append_assoc, dropWhile_spaces front (by simpa using start), List.reverse_append,
      List.reverse_replicate, dropWhile_spaces back (by rwa [List.head?_reverse]), List.reverse_reverse]

theorem trimSpaces_between (line : List Char) : ∃ front back,
    line = List.replicate front ' ' ++ SymbolRecord.trimSpaces line ++ List.replicate back ' ' ∧
      (SymbolRecord.trimSpaces line).head? ≠ some ' ' ∧
      (SymbolRecord.trimSpaces line).getLast? ≠ some ' ' := by
  obtain ⟨front, before⟩ : ∃ front, line = List.replicate front ' ' ++ line.dropWhile (· = ' ') :=
    ⟨_, spaces_before line⟩
  obtain ⟨back, behind⟩ : ∃ back,
      line.dropWhile (· = ' ') = SymbolRecord.trimSpaces line ++ List.replicate back ' ' := by
    have reversed := congrArg List.reverse (spaces_before (line.dropWhile (· = ' ')).reverse)
    rw [List.reverse_reverse, List.reverse_append, List.reverse_replicate] at reversed
    exact ⟨_, reversed⟩
  refine ⟨front, back, ?_, ?_, ?_⟩
  · rw [List.append_assoc, ← behind, ← before]
  · intro start
    apply head?_dropWhile_spaces line
    rw [behind, List.head?_append, start, Option.some_or]
  · rw [SymbolRecord.trimSpaces, List.getLast?_reverse]
    exact head?_dropWhile_spaces _

theorem hasFields_iff {line : List Char} {fields : List (List Char)} :
    HasFields line fields ↔
      line.head? ≠ some '#' ∧ SymbolRecord.fieldsOf (SymbolRecord.trimSpaces line) = fields := by
  constructor
  · rintro ⟨said, some', apart, front, core, back, rfl, start, stop, rfl⟩
    refine ⟨said, ?_⟩
    rw [trimSpaces_eq start stop, fieldsOf_eq, List.splitOn_intercalate '^' apart some']
  · rintro ⟨said, rfl⟩
    obtain ⟨front, back, split, start, stop⟩ := trimSpaces_between line
    refine ⟨said, ?_, caret_notMem_fieldsOf _, front, _, back, split, start, stop, ?_⟩
    · rw [fieldsOf_eq]
      exact List.splitOn_ne_nil _ _
    · rw [fieldsOf_eq, List.intercalate_splitOn]

/-! ## Codes -/

/-- A character is the digit for a number, in small or in capital letters. -/
def HexDigit (c : Char) (value : Nat) : Prop :=
  "0123456789abcdef".toList[value]? = some c ∨ "0123456789ABCDEF".toList[value]? = some c

instance (c : Char) (value : Nat) : Decidable (HexDigit c value) :=
  inferInstanceAs (Decidable (_ ∨ _))

/-- Digits that are a number. -/
def Denotes (digits : List Char) (number : Nat) : Prop :=
  digits ≠ [] ∧
    ∃ values, List.Forall₂ HexDigit digits values ∧ number = Nat.ofDigits 16 values.reverse

/-- A field that is a number in hexadecimal, below 2^32, with a plus sign in front of it or none. -/
structure IsCode (field : List Char) (code : Nat) : Prop where
  number : ∃ digits, (field = digits ∨ field = '+' :: digits) ∧ Denotes digits code
  fits : code < 2 ^ 32

theorem HexDigit.lt {c : Char} {value : Nat} (digit : HexDigit c value) : value < 16 := by
  rcases digit with small | capital
  · exact (List.getElem?_eq_some_iff.mp small).1
  · exact (List.getElem?_eq_some_iff.mp capital).1

theorem HexDigit.ascii {c : Char} {value : Nat} (digit : HexDigit c value) : c.toNat < 128 := by
  have all : ("0123456789abcdef".toList ++ "0123456789ABCDEF".toList).all (·.toNat < 128) = true := by decide
  have mem : c ∈ "0123456789abcdef".toList ++ "0123456789ABCDEF".toList :=
    List.mem_append.mpr (digit.imp List.mem_of_getElem? List.mem_of_getElem?)
  exact of_decide_eq_true (List.all_eq_true.mp all c mem)

theorem hexDigit?_bounds {c : Char} {value : Nat} (found : SymbolRecord.hexDigit? c = some value) :
    c.toNat < 128 ∧ value < 16 := by
  have zero : '0'.toNat = 48 := rfl
  have small : 'a'.toNat = 97 := rfl
  have capital : 'A'.toNat = 65 := rfl
  have order : ∀ {a b : Char}, a ≤ b → a.toNat ≤ b.toNat := fun le => le
  unfold SymbolRecord.hexDigit? at found
  split at found
  · rename_i range
    obtain rfl := Option.some.inj found
    have low := order range.1
    have high : c.toNat ≤ 57 := order range.2
    omega
  · split at found
    · rename_i range
      obtain rfl := Option.some.inj found
      have low := order range.1
      have high : c.toNat ≤ 102 := order range.2
      omega
    · split at found
      · rename_i range
        obtain rfl := Option.some.inj found
        have low := order range.1
        have high : c.toNat ≤ 70 := order range.2
        omega
      · cases found

theorem hexDigit?_iff {c : Char} {value : Nat} :
    SymbolRecord.hexDigit? c = some value ↔ HexDigit c value := by
  have few : ∀ n ∈ List.range 128, ∀ value ∈ List.range 16,
      (SymbolRecord.hexDigit? (Char.ofNat n) = some value ↔ HexDigit (Char.ofNat n) value) := by
    decide +kernel
  have bounded (small : c.toNat < 128) (low : value < 16) :=
    few c.toNat (List.mem_range.mpr small) value (List.mem_range.mpr low)
  rw [Char.ofNat_toNat] at bounded
  constructor
  · intro found
    obtain ⟨small, low⟩ := hexDigit?_bounds found
    exact (bounded small low).mp found
  · intro digit
    exact (bounded digit.ascii digit.lt).mpr digit

theorem foldl_eq_ofDigits (values : List Nat) :
    values.foldl (fun n d => 16 * n + d) 0 = Nat.ofDigits 16 values.reverse := by
  induction values using List.reverseRecOn with
  | nil => rfl
  | append_singleton front last ih =>
    rw [List.foldl_append, ih, List.reverse_append, List.reverse_singleton, List.singleton_append,
      Nat.ofDigits_cons]
    simp [Nat.add_comm]

theorem mapM_eq_some_iff {α β : Type} {f : α → Option β} {rel : α → β → Prop}
    (told : ∀ a b, f a = some b ↔ rel a b) {as : List α} {bs : List β} :
    as.mapM f = some bs ↔ List.Forall₂ rel as bs := by
  induction as generalizing bs with
  | nil => cases bs <;> simp
  | cons a as ih =>
    simp only [List.mapM_cons, Option.bind_eq_bind, Option.bind_eq_some_iff, Option.pure_def,
      Option.some.injEq, told, ih, List.forall₂_cons_left_iff]
    constructor
    · rintro ⟨b, first, bs, rest, rfl⟩
      exact ⟨b, bs, first, rest, rfl⟩
    · rintro ⟨b, bs, first, rest, rfl⟩
      exact ⟨b, first, bs, rest, rfl⟩

theorem denotes_cons {c : Char} {cs : List Char} {code : Nat} :
    ((c :: cs).mapM SymbolRecord.hexDigit? >>= fun values =>
        let code := values.foldl (fun n d => 16 * n + d) 0
        if code < Nat.pow 2 32 then some code else none) = some code ↔
      Denotes (c :: cs) code ∧ code < 2 ^ 32 := by
  rw [Option.bind_eq_bind, Option.bind_eq_some_iff]
  simp only [mapM_eq_some_iff (fun _ _ => hexDigit?_iff), foldl_eq_ofDigits]
  constructor
  · rintro ⟨values, digits, fits⟩
    split at fits
    · rename_i small
      obtain rfl := Option.some.inj fits
      exact ⟨⟨List.cons_ne_nil c cs, values, digits, rfl⟩, small⟩
    · cases fits
  · rintro ⟨⟨-, values, digits, rfl⟩, fits⟩
    exact ⟨values, digits, if_pos fits⟩

theorem plus_no_digit (value : Nat) : ¬ HexDigit '+' value := by
  intro digit
  have other : '+' ∉ "0123456789abcdef".toList ++ "0123456789ABCDEF".toList := by decide
  apply other
  rw [List.mem_append]
  exact digit.imp List.mem_of_getElem? List.mem_of_getElem?

theorem code?_unsigned {digits : List Char} {code : Nat} (unsigned : digits.head? ≠ some '+') :
    SymbolRecord.code? digits = some code ↔ Denotes digits code ∧ code < 2 ^ 32 := by
  cases digits with
  | nil => simp [SymbolRecord.code?, Denotes]
  | cons c cs =>
    rw [← denotes_cons, SymbolRecord.code?]
    · intro rest same
      exact unsigned (by rw [same]; rfl)
    · exact List.cons_ne_nil c cs

theorem code?_signed (digits : List Char) {code : Nat} :
    SymbolRecord.code? ('+' :: digits) = some code ↔ Denotes digits code ∧ code < 2 ^ 32 := by
  cases digits with
  | nil => simp [SymbolRecord.code?, Denotes]
  | cons c cs => exact denotes_cons

theorem code?_iff {field : List Char} {code : Nat} :
    SymbolRecord.code? field = some code ↔ IsCode field code := by
  by_cases signed : field.head? = some '+'
  · obtain ⟨digits, rfl⟩ := List.head?_eq_some_iff.mp signed
    rw [code?_signed]
    constructor
    · rintro ⟨denotes, fits⟩
      exact ⟨⟨digits, .inr rfl, denotes⟩, fits⟩
    · rintro ⟨⟨other, same | same, denotes⟩, fits⟩
      · obtain ⟨-, values, all, -⟩ := same ▸ denotes
        cases all with
        | cons plus _ => exact absurd plus (plus_no_digit _)
      · exact ⟨(List.cons.inj same).2 ▸ denotes, fits⟩
  · rw [code?_unsigned signed]
    constructor
    · rintro ⟨denotes, fits⟩
      exact ⟨⟨field, .inl rfl, denotes⟩, fits⟩
    · rintro ⟨⟨other, same | same, denotes⟩, fits⟩
      · exact ⟨same ▸ denotes, fits⟩
      · exact absurd (by rw [same]; rfl) signed

/-! ## Cross references -/

/-- The characters that end the command of a cross reference. -/
def Ends (c : Char) : Prop := c = ',' ∨ c = '^' ∨ c = ' '

/-- A text starts with a command, behind any white space. The command goes on as far as it can. -/
inductive Names : List Char → List Char → Prop
  | command {blanks word after : List Char} (blank : ∀ c ∈ blanks, SymbolRecord.isUnicodeSpace c)
      (some : word ≠ []) (inner : ∀ c ∈ word, ¬ Ends c) (stop : ∀ c ∈ after.head?, Ends c) :
      Names (blanks ++ '\\' :: (word ++ after)) ('\\' :: word)

/-- Comments have a marker at a place, and a command directly behind it. -/
def Refers (comments : List Char) (place : Nat) (name : List Char) : Prop :=
  ∃ marker behind, comments.drop place = marker :: behind ∧ (marker = '=' ∨ marker = '#') ∧ Names behind name

theorem reference?_iff {behind name : List Char} :
    SymbolRecord.reference? behind = some name ↔ Names behind name := by
  constructor
  · intro found
    unfold SymbolRecord.reference? at found
    split at found
    case h_2 => cases found
    rename_i rest slash
    split at found
    · cases found
    · rename_i word some
      obtain rfl := Option.some.inj found
      have split : behind = behind.takeWhile SymbolRecord.isUnicodeSpace ++ '\\' ::
          (rest.takeWhile (fun c => c ≠ ',' ∧ c ≠ '^' ∧ c ≠ ' ') ++
            rest.dropWhile (fun c => c ≠ ',' ∧ c ≠ '^' ∧ c ≠ ' ')) := by
        rw [List.takeWhile_append_dropWhile, ← slash, List.takeWhile_append_dropWhile]
      rw [split]
      apply Names.command
      · intro c mem
        exact List.mem_takeWhile_imp mem
      · exact some
      · intro c mem
        have := List.mem_takeWhile_imp mem
        simp only [decide_eq_true_eq] at this
        simpa [Ends] using this
      · intro c first
        have := List.head?_dropWhile_not (fun c : Char => decide (c ≠ ',' ∧ c ≠ '^' ∧ c ≠ ' ')) rest
        rw [Option.mem_def.mp first] at this
        simp only [decide_eq_false_iff_not] at this
        unfold Ends
        tauto
  · rintro ⟨blank, some, inner, stop⟩
    rename_i blanks word after
    have slash : SymbolRecord.isUnicodeSpace '\\' = false := by decide
    have whole : (word ++ after).takeWhile (fun c => c ≠ ',' ∧ c ≠ '^' ∧ c ≠ ' ') = word := by
      rw [List.takeWhile_append_of_pos]
      · cases after with
        | nil => simp
        | cons c rest =>
          have := stop c rfl
          rw [List.takeWhile_cons_of_neg, List.append_nil]
          unfold Ends at this
          simpa using by tauto
      · intro c mem
        simpa [Ends] using inner c mem
    unfold SymbolRecord.reference?
    rw [List.dropWhile_append_of_pos blank, List.dropWhile_cons_of_neg (by simp [slash])]
    simp only [whole]

theorem refers_nil {place : Nat} {name : List Char} : ¬ Refers [] place name := by
  rintro ⟨marker, behind, split, -⟩
  rw [List.drop_nil] at split
  cases split

theorem refers_zero {c : Char} {rest name : List Char} :
    Refers (c :: rest) 0 name ↔ (c = '=' ∨ c = '#') ∧ Names rest name := by
  constructor
  · rintro ⟨marker, behind, split, mark, names⟩
    cases split
    exact ⟨mark, names⟩
  · rintro ⟨mark, names⟩
    exact ⟨c, rest, rfl, mark, names⟩

theorem refers_succ {c : Char} {rest name : List Char} {place : Nat} :
    Refers (c :: rest) (place + 1) name ↔ Refers rest place name :=
  Iff.rfl

theorem mem_crossReferences {comments name : List Char} :
    name ∈ SymbolRecord.crossReferences comments ↔ ∃ place, Refers comments place name := by
  induction comments with
  | nil => simp [SymbolRecord.crossReferences, refers_nil]
  | cons c rest ih =>
    have first : (∃ place, Refers (c :: rest) place name) ↔
        Refers (c :: rest) 0 name ∨ ∃ place, Refers (c :: rest) (place + 1) name := by
      constructor
      · rintro ⟨_ | place, refers⟩
        · exact .inl refers
        · exact .inr ⟨place, refers⟩
      · rintro (refers | ⟨place, refers⟩)
        · exact ⟨0, refers⟩
        · exact ⟨place + 1, refers⟩
    rw [first]
    simp only [refers_zero, refers_succ, ← ih, ← reference?_iff]
    by_cases mark : c = '=' ∨ c = '#' <;> simp [SymbolRecord.crossReferences, mark]

/-! ## Records -/

/-- A line has the form of a record: at least five fields, of which the first is a code, the next three are
names and the last is comments. -/
structure IsRecord (line : List Char) (code : Nat) (names : List (List Char)) (comments : List Char) :
    Prop where
  three : names.length = 3
  fields : ∃ number further, HasFields line (number :: (names ++ further ++ [comments])) ∧ IsCode number code

theorem three_of_length {α : Type} {xs : List α} (three : xs.length = 3) : ∃ a b c, xs = [a, b, c] := by
  match xs, three with
  | [a, b, c], _ => exact ⟨a, b, c, rfl⟩

/-- The record of a line, from the parts of its form. -/
def recordOf (code : Nat) (names : List (List Char)) (comments : List Char) : SymbolRecord :=
  ⟨code, (names.filter (! ·.isEmpty) ++ SymbolRecord.crossReferences comments).map String.ofList⟩

theorem IsRecord.ofLine? {line : List Char} {code : Nat} {names : List (List Char)} {comments : List Char}
    (form : IsRecord line code names comments) :
    SymbolRecord.ofLine? line = some (recordOf code names comments) := by
  obtain ⟨number, further, fields, isCode⟩ := form.fields
  obtain ⟨first, second, third, rfl⟩ := three_of_length form.three
  obtain ⟨said, split⟩ := hasFields_iff.mp fields
  rw [SymbolRecord.ofLine?, if_neg said, split]
  simp only [List.cons_append, List.nil_append, List.getLast?_append, List.getLast?_singleton,
    Option.some_or, code?_iff.mpr isCode]
  rfl

theorem exists_isRecord {line : List Char} {record : SymbolRecord}
    (found : SymbolRecord.ofLine? line = some record) :
    ∃ code names comments, IsRecord line code names comments ∧ record = recordOf code names comments := by
  unfold SymbolRecord.ofLine? at found
  split at found
  · cases found
  rename_i said
  split at found
  case h_2 => cases found
  rename_i number first second third further split
  split at found
  · cases found
  rename_i comments last
  obtain ⟨code, isCode, same⟩ := Option.bind_eq_some_iff.mp found
  obtain ⟨front, rfl⟩ := List.getLast?_eq_some_iff.mp last
  refine ⟨code, [first, second, third], comments, ⟨rfl, number, front, ?_, code?_iff.mp isCode⟩, ?_⟩
  · exact hasFields_iff.mpr ⟨said, split⟩
  · exact (Option.some.inj same).symm

/-- The names that a line lists for a code, each at its slot: first the fields that are not empty, then the
cross references. -/
inductive Listed (line : List Char) : Nat → List Char → Nat → Prop
  | field {code slot : Nat} {names : List (List Char)} {comments name : List Char}
      (form : IsRecord line code names comments) (at_slot : names[slot]? = some name) (some : name ≠ []) :
      Listed line slot name code
  | reference {code place : Nat} {names : List (List Char)} {comments name : List Char}
      (form : IsRecord line code names comments) (refers : Refers comments place name) :
      Listed line (3 + place) name code

theorem mem_recordOf {code : Nat} {names : List (List Char)} {comments : List Char} {name : String} :
    name ∈ (recordOf code names comments).names ↔
      (name.toList ∈ names ∧ name.toList ≠ []) ∨ ∃ place, Refers comments place name.toList := by
  have ofList_eq (chars : List Char) : String.ofList chars = name ↔ chars = name.toList := by
    rw [← String.toList_inj, String.toList_ofList]
  simp only [recordOf, List.mem_map, ofList_eq, exists_eq_right, List.mem_append, List.mem_filter,
    mem_crossReferences]
  simp

theorem listed_iff {line : List Char} {name : String} {code : Nat} :
    (∃ slot, Listed line slot name.toList code) ↔
      ∃ record, SymbolRecord.ofLine? line = some record ∧ record.code = code ∧ name ∈ record.names := by
  constructor
  · rintro ⟨_, ⟨form, at_slot, some⟩ | ⟨form, refers⟩⟩
    · exact ⟨_, form.ofLine?, rfl, mem_recordOf.mpr (.inl ⟨List.mem_of_getElem? at_slot, some⟩)⟩
    · exact ⟨_, form.ofLine?, rfl, mem_recordOf.mpr (.inr ⟨_, refers⟩)⟩
  · rintro ⟨record, found, rfl, mem⟩
    obtain ⟨code, names, comments, form, rfl⟩ := exists_isRecord found
    obtain ⟨field, some⟩ | ⟨place, refers⟩ := mem_recordOf.mp mem
    · obtain ⟨slot, at_slot⟩ := List.getElem?_of_mem field
      exact ⟨slot, .field form at_slot some⟩
    · exact ⟨3 + place, .reference form refers⟩

end FormulaMarkup.SymbolFile

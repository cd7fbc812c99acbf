import FormulaMarkup.Proofs.Bytes.Slice

/-!
Scanning by places. A scanner looks at the bytes of a line from a place on, and gives the place at
which what it has found ends. It finds what the scanner of characters finds there, and the only byte
that has to be there is the one at the start of a length.
-/
namespace FormulaMarkup.Bytes

open Source (byteLength byteLength_append byteLength_cons byteLength_nil byteLength_pos)

/-! ## Scanners -/

/-- The place behind the bytes from a place on that pass a test. -/
def skipWhile (bytes : List UInt8) (place : Nat) (test : Char → Bool) : Nat :=
  place + ((bytes.drop place).takeWhile (onByte test)).length

/-- Whether there is a byte at a place, and it passes a test. -/
def passes (bytes : List UInt8) (place : Nat) (test : Char → Bool) : Bool :=
  bytes[place]?.any (onByte test)

def numberEnd? (bytes : List UInt8) (place : Nat) : Option Nat :=
  let whole := skipWhile bytes place Char.isDigit
  if whole = place then none
  else if passes bytes whole (· == '.') then
    let fraction := skipWhile bytes (whole + 1) Char.isDigit
    if whole + 1 < fraction then some fraction else some whole
  else some whole

def quantityEnd? (bytes : List UInt8) (place : Nat) : Option Nat :=
  match numberEnd? bytes place with
  | none => none
  | some behind =>
    let unit := skipWhile bytes behind Scan.isBlank
    match drop? bytes unit with
    | none => none
    | some rest =>
      if Scan.units.any fun (a, b) => (utf8 [a, b]).isPrefixOf rest then some (unit + 2) else none

/-- The end of a length, if there is one at a place, which has to be in the source. -/
def dimensionEnd? (bytes : List UInt8) (place : Nat) : Option (Option Nat) := do
  let head ← bytes[place]?
  return quantityEnd? bytes (if onByte (· == '-') head then place + 1 else place)

def environmentEnd? (bytes : List UInt8) (place : Nat) : Option Nat :=
  let opening := skipWhile bytes place Scan.isBlank
  if passes bytes opening (· == '\x7b') then
    let name := skipWhile bytes (opening + 1) Char.isAlpha
    if name = opening + 1 then none
    else
      let closing := if passes bytes name (· == '*') then name + 1 else name
      if passes bytes closing (· == '\x7d') then some (closing + 1) else none
  else none

def operatorEnd? (bytes : List UInt8) (place : Nat) : Option Nat :=
  let opening := skipWhile bytes place Scan.isBlank
  if passes bytes opening (· == '\x7b') then
    let closing := skipWhile bytes (opening + 1) fun c => c.isAlpha || Scan.isBlank c || c == '*'
    if closing = opening + 1 then none
    else if passes bytes closing (· == '\x7d') then some (closing + 1) else none
  else none

/-! ## Places -/

/- The bytes from a place on are those of a text. -/
def At (bytes : List UInt8) (place : Nat) (rest : List Char) : Prop :=
  ∃ before, bytes = utf8 (before ++ rest) ∧ place = byteLength before

namespace At

variable {bytes : List UInt8} {place : Nat} {rest taken behind : List Char} {test : Char → Bool}
  {other : Bool}

theorem drop_eq (here : At bytes place rest) : bytes.drop place = utf8 rest := by
  obtain ⟨before, rfl, rfl⟩ := here
  exact drop_utf8 before rest

theorem within (here : At bytes place rest) : place ≤ bytes.length := by
  obtain ⟨before, rfl, rfl⟩ := here
  rw [length_utf8, byteLength_append]
  exact Nat.le_add_right _ _

theorem advance (here : At bytes place (taken ++ behind)) :
    At bytes (place + byteLength taken) behind := by
  obtain ⟨before, rfl, rfl⟩ := here
  exists before ++ taken
  constructor
  · rw [List.append_assoc]
  · rw [byteLength_append]

theorem next {c : Char} {cs : List Char} (here : At bytes place (c :: cs)) (low : c.utf8Size = 1) :
    At bytes (place + 1) cs := by
  have moved : At bytes (place + byteLength [c]) cs := advance here
  rwa [byteLength_cons, byteLength_nil, low] at moved

theorem skip_eq (here : At bytes place rest) (ascii : Ascii test other) :
    skipWhile bytes place test = place + byteLength (rest.takeWhile test) := by
  rw [skipWhile, here.drop_eq, length_takeWhile_utf8 ascii]

theorem skip (here : At bytes place rest) (ascii : Ascii test other) :
    At bytes (skipWhile bytes place test) (rest.dropWhile test) := by
  rw [here.skip_eq ascii]
  apply advance
  rwa [List.takeWhile_append_dropWhile]

theorem passes_eq (here : At bytes place rest) (ascii : Ascii test false) :
    passes bytes place test = rest.head?.any test := by
  obtain ⟨before, rfl, rfl⟩ := here
  exact head_utf8 ascii before rest

/- The byte at a place passes for an ASCII character exactly if the character there does. -/
theorem head_eq {c : Char} {cs : List Char} (here : At bytes place (c :: cs)) :
    ∃ head, bytes[place]? = some head ∧
      ∀ test, Ascii test false → onByte test head = test c := by
  have size := c.utf8Size_pos
  rw [← String.length_utf8EncodeChar] at size
  obtain ⟨head, more, encoded⟩ := List.exists_cons_of_length_pos size
  have found : bytes[place]? = some head := by
    rw [← List.head?_drop, here.drop_eq, utf8_cons, encoded]
    rfl
  exists head
  constructor
  · exact found
  · intro test ascii
    have same := here.passes_eq ascii
    rwa [passes, found] at same

theorem none_eq (here : At bytes place []) : bytes[place]? = none := by
  rw [← List.head?_drop, here.drop_eq]
  rfl

end At

/-! ## Tests for ASCII characters -/

theorem isDigit_iff {c : Char} : c.isDigit ↔ 48 ≤ c.toNat ∧ c.toNat ≤ 57 := by
  change (decide ('0'.val ≤ c.val) && decide (c.val ≤ '9'.val)) = true ↔ _
  rw [Bool.and_eq_true, decide_eq_true_eq, decide_eq_true_eq]
  rfl

theorem isAlpha_iff {c : Char} :
    c.isAlpha ↔ (65 ≤ c.toNat ∧ c.toNat ≤ 90) ∨ (97 ≤ c.toNat ∧ c.toNat ≤ 122) := by
  change (decide ('A'.val ≤ c.val ∧ c.val ≤ 'Z'.val) ||
    (decide ('a'.val ≤ c.val) && decide (c.val ≤ 'z'.val))) = true ↔ _
  rw [Bool.or_eq_true, Bool.and_eq_true, decide_eq_true_eq, decide_eq_true_eq, decide_eq_true_eq]
  rfl

theorem ascii_isDigit : Ascii Char.isDigit false := by
  intro c high
  rw [Bool.eq_false_iff]
  intro digit
  have := isDigit_iff.mp digit
  omega

theorem ascii_isAlpha : Ascii Char.isAlpha false := by
  intro c high
  rw [Bool.eq_false_iff]
  intro letter
  have := isAlpha_iff.mp letter
  omega

theorem ascii_eq {d : Char} (low : d.toNat < 128) : Ascii (· == d) false := by
  intro c high
  rw [beq_eq_false_iff_ne]
  rintro rfl
  omega

theorem ascii_contains {letters : List Char} (low : letters.all fun d => d.toNat < 128) :
    Ascii (fun c => letters.contains c) false := by
  intro c high
  change letters.contains c = false
  rw [List.contains_eq_any_beq, List.any_eq_false]
  intro d listed same
  have small := List.all_eq_true.mp low d listed
  rw [decide_eq_true_eq] at small
  rw [← eq_of_beq same] at small
  omega

theorem Ascii.or {one two : Char → Bool} (first : Ascii one false) (second : Ascii two false) :
    Ascii (fun c => one c || two c) false := by
  intro c high
  exact Bool.or_eq_false_iff.mpr ⟨first c high, second c high⟩

theorem ascii_isBlank : Ascii Scan.isBlank false := by
  intro c high
  have other (d : Char) (low : d.toNat < 128) : c ≠ d := by
    rintro rfl
    omega
  have : c ≠ ' ' := other ' ' (by decide)
  have : c ≠ '\t' := other '\t' (by decide)
  have : c ≠ '\n' := other '\n' (by decide)
  have : c ≠ '\x0c' := other '\x0c' (by decide)
  have : c ≠ '\r' := other '\r' (by decide)
  simp [Scan.isBlank, *]

theorem ascii_isShortArgument : Ascii Lexeme.isShortArgument false :=
  ascii_isDigit.or (ascii_eq (by decide))

/- A character that passes for an ASCII character is one. -/
theorem Ascii.size_eq {test : Char → Bool} (ascii : Ascii test false) {c : Char} (passed : test c) :
    c.utf8Size = 1 := by
  by_contra size
  by_cases low : c.toNat < 128
  · exact size (encode_low low).2
  · rw [ascii c (Nat.le_of_not_lt low)] at passed
    contradiction

/-! ## What the scanners find -/

section Scanners

variable {bytes : List UInt8} {place : Nat} {rest : List Char}

theorem numberEnd?_eq (here : At bytes place rest) :
    numberEnd? bytes place = (Scan.number? rest).map fun (taken, _) => place + byteLength taken := by
  have whole := here.skip_eq ascii_isDigit
  have further := here.skip ascii_isDigit
  unfold numberEnd? Scan.number?
  dsimp only
  rw [further.passes_eq (ascii_eq (by decide))]
  rw [whole] at further ⊢
  cases digits : rest.takeWhile Char.isDigit with
  | nil => simp
  | cons d ds =>
    have some := byteLength_pos (List.cons_ne_nil d ds)
    rw [digits] at further
    rw [if_neg (by omega), List.isEmpty_cons, if_neg Bool.false_ne_true]
    cases behind : rest.dropWhile Char.isDigit with
    | nil => rfl
    | cons point fraction =>
      rw [behind] at further
      by_cases same : point = '.'
      · subst same
        have length := (further.next rfl).skip_eq ascii_isDigit
        have size : '.'.utf8Size = 1 := rfl
        simp only [length, List.head?_cons, Option.any_some, beq_self_eq_true, if_true]
        cases places : fraction.takeWhile Char.isDigit with
        | nil => simp only [byteLength_nil, Nat.add_zero, Nat.lt_irrefl, if_false, List.isEmpty_nil,
            if_true, Option.map_some]
        | cons e es =>
          have more := byteLength_pos (List.cons_ne_nil e es)
          rw [if_pos (by omega), List.isEmpty_cons, if_neg Bool.false_ne_true, Option.map_some,
            byteLength_append, byteLength_cons '.', size]
          exact congrArg Option.some (by omega)
      · simp [same]

theorem units_prefix (text : List Char) :
    (Scan.units.any fun (a, b) => (utf8 [a, b]).isPrefixOf (utf8 text)) =
      match text with
      | a :: b :: _ => Scan.units.contains (a, b)
      | _ => false := by
  have low (unit : Char × Char) (listed : unit ∈ Scan.units) :
      ∀ c ∈ [unit.1, unit.2], c.toNat < 128 := by
    have all : Scan.units.all fun unit => [unit.1, unit.2].all fun c => c.toNat < 128 := by decide
    intro c inside
    exact of_decide_eq_true (List.all_eq_true.mp (List.all_eq_true.mp all unit listed) c inside)
  rw [Bool.eq_iff_iff, List.any_eq_true]
  constructor
  · rintro ⟨⟨a, b⟩, listed, start⟩
    rw [List.isPrefixOf_iff_prefix, prefix_utf8 (low _ listed)] at start
    obtain ⟨rest, rfl⟩ := start
    exact List.contains_iff_mem.mpr listed
  · intro known
    match text, known with
    | a :: b :: rest, known =>
      have listed := List.contains_iff_mem.mp known
      refine ⟨(a, b), listed, ?_⟩
      rw [List.isPrefixOf_iff_prefix, prefix_utf8 (low _ listed)]
      exact ⟨rest, rfl⟩

theorem quantityEnd?_eq (here : At bytes place rest) :
    quantityEnd? bytes place = (Scan.quantity? rest).map fun (taken, _) => place + byteLength taken := by
  unfold quantityEnd? Scan.quantity?
  rw [numberEnd?_eq here]
  cases found : Scan.number? rest with
  | none => rfl
  | some result =>
    obtain ⟨number, behind⟩ := result
    rw [← Scan.append_of_number? found] at here
    have blanks := here.advance.skip_eq ascii_isBlank
    have unit := here.advance.skip ascii_isBlank
    have dropped : drop? bytes (skipWhile bytes (place + byteLength number) Scan.isBlank) =
        some (utf8 (behind.dropWhile Scan.isBlank)) := by
      rw [drop?, if_pos unit.within, unit.drop_eq]
    simp only [Option.map_some, dropped, units_prefix]
    rw [blanks]
    rcases behind.dropWhile Scan.isBlank with _ | ⟨a, _ | ⟨b, tail⟩⟩
    · rfl
    · rfl
    · dsimp only
      split
      · rename_i known
        have low : ∀ unit ∈ Scan.units, unit.1.utf8Size = 1 ∧ unit.2.utf8Size = 1 := by decide
        obtain ⟨first, second⟩ := low (a, b) (List.contains_iff_mem.mp known)
        simp only [Option.map_some, byteLength_append, byteLength_cons, byteLength_nil, first, second]
        exact congrArg some (by omega)
      · rfl

theorem dimensionEnd?_eq {c : Char} {cs : List Char} (here : At bytes place (c :: cs)) :
    dimensionEnd? bytes place =
      some ((Scan.dimension? (c :: cs)).map fun (taken, _) => place + byteLength taken) := by
  obtain ⟨head, found, same⟩ := here.head_eq
  have sign := same (· == '-') (ascii_eq (by decide))
  unfold dimensionEnd? Scan.dimension?
  rw [found]
  change some (quantityEnd? bytes (if onByte (· == '-') head then place + 1 else place)) = _
  rw [sign]
  apply congrArg some
  by_cases minus : c = '-'
  · subst minus
    rw [if_pos (by decide), quantityEnd?_eq (here.next rfl)]
    change _ = ((Scan.quantity? cs).map fun (taken, rest) => ('-' :: taken, rest)).map _
    rw [Option.map_map]
    apply congrArg (Option.map · _)
    funext ⟨taken, _⟩
    have size : '-'.utf8Size = 1 := rfl
    change place + 1 + byteLength taken = place + byteLength ('-' :: taken)
    rw [byteLength_cons, size]
    omega
  · rw [beq_eq_false_iff_ne.mpr minus, if_neg Bool.false_ne_true, quantityEnd?_eq here]
    split
    · rename_i tail same
      exact absurd (List.cons.inj same).1 minus
    · rfl

/- Behind blanks there is an opening brace, or there is not. -/
theorem brace_cases (here : At bytes place rest) :
    (∃ inner, rest.dropWhile Scan.isBlank = '\x7b' :: inner ∧
      passes bytes (skipWhile bytes place Scan.isBlank) (· == '\x7b') = true ∧
      At bytes (skipWhile bytes place Scan.isBlank + 1) inner) ∨
    (∀ inner, rest.dropWhile Scan.isBlank ≠ '\x7b' :: inner) ∧
      passes bytes (skipWhile bytes place Scan.isBlank) (· == '\x7b') = false := by
  have further := here.skip ascii_isBlank
  have passed := further.passes_eq (ascii_eq (d := '\x7b') (by decide))
  cases opened : rest.dropWhile Scan.isBlank with
  | nil =>
    rw [opened] at passed
    exact .inr ⟨nofun, passed⟩
  | cons c inner =>
    rw [opened] at further passed
    rw [List.head?_cons, Option.any_some] at passed
    by_cases same : c = '\x7b'
    · subst same
      exact .inl ⟨inner, rfl, passed, further.next rfl⟩
    · rw [beq_eq_false_iff_ne.mpr same] at passed
      exact .inr ⟨fun _ opens => same (List.cons.inj opens).1, passed⟩

theorem environmentEnd?_eq (here : At bytes place rest) :
    environmentEnd? bytes place =
      (Scan.environmentName? rest).map fun (taken, _) => place + byteLength taken := by
  have blanks := here.skip_eq ascii_isBlank
  unfold environmentEnd? Scan.environmentName?
  dsimp only
  obtain ⟨inner, opened, brace, inside⟩ | ⟨unopened, other⟩ := brace_cases here
  · have letters := inside.skip_eq ascii_isAlpha
    have behind := inside.skip ascii_isAlpha
    rw [if_pos brace, opened]
    cases name : inner.takeWhile Char.isAlpha with
    | nil =>
      rw [name] at letters
      simp only [name, letters]
      simp
    | cons l ls =>
      have some := byteLength_pos (List.cons_ne_nil l ls)
      have opening : '\x7b'.utf8Size = 1 := rfl
      have star : '*'.utf8Size = 1 := rfl
      have closing : '\x7d'.utf8Size = 1 := rfl
      have starred := behind.passes_eq (ascii_eq (d := '*') (by decide))
      have closed := behind.passes_eq (ascii_eq (d := '\x7d') (by decide))
      rw [name] at letters
      rw [if_neg (by omega), starred]
      simp only [name, List.isEmpty_cons, Bool.false_eq_true, if_false]
      cases rest : inner.dropWhile Char.isAlpha with
      | nil =>
        rw [rest] at closed
        simp [closed]
      | cons d more =>
        rw [rest] at behind closed
        by_cases last : d = '*'
        · subst last
          have ends := (behind.next rfl).passes_eq (ascii_eq (d := '\x7d') (by decide))
          simp only [List.head?_cons, Option.any_some, beq_self_eq_true, if_true, ends]
          rcases more with _ | ⟨e, further⟩
          · rfl
          · by_cases brace : e = '\x7d'
            · subst brace
              simp only [List.head?_cons, Option.any_some, beq_self_eq_true, if_true, Option.map_some,
                byteLength_append, byteLength_cons, byteLength_nil, opening, star, closing]
              rw [byteLength_cons] at letters
              exact congrArg Option.some (by omega)
            · simp [brace]
        · simp only [List.head?_cons, Option.any_some, beq_eq_false_iff_ne.mpr last,
            Bool.false_eq_true, if_false, closed]
          by_cases brace : d = '\x7d'
          · subst brace
            simp only [beq_self_eq_true, if_true, Option.map_some, byteLength_append, byteLength_cons,
              byteLength_nil, opening, closing]
            rw [byteLength_cons] at letters
            exact congrArg Option.some (by omega)
          · simp [brace, last]
  · rw [other, if_neg Bool.false_ne_true]
    split
    · rename_i opens
      exact absurd opens (unopened _)
    · rfl

theorem operatorEnd?_eq (here : At bytes place rest) :
    operatorEnd? bytes place =
      (Scan.operatorName? rest).map fun (taken, _) => place + byteLength taken := by
  have ascii : Ascii (fun c => c.isAlpha || Scan.isBlank c || c == '*') false :=
    (ascii_isAlpha.or ascii_isBlank).or (ascii_eq (by decide))
  have blanks := here.skip_eq ascii_isBlank
  unfold operatorEnd? Scan.operatorName? Scan.braced?
  dsimp only
  obtain ⟨inner, opened, brace, inside⟩ | ⟨unopened, other⟩ := brace_cases here
  · have opening : '\x7b'.utf8Size = 1 := rfl
    have closing : '\x7d'.utf8Size = 1 := rfl
    have letters := inside.skip_eq ascii
    have behind := inside.skip ascii
    have closed := behind.passes_eq (ascii_eq (d := '\x7d') (by decide))
    rw [if_pos brace, opened, closed]
    cases rest : inner.dropWhile fun c => c.isAlpha || Scan.isBlank c || c == '*' with
    | nil => simp [rest]
    | cons d more =>
      by_cases brace : d = '\x7d'
      · subst brace
        cases name : inner.takeWhile fun c => c.isAlpha || Scan.isBlank c || c == '*' with
        | nil =>
          rw [name] at letters
          simp [letters, rest, name]
        | cons l ls =>
          have some := byteLength_pos (List.cons_ne_nil l ls)
          rw [name] at letters
          rw [if_neg (by omega)]
          simp only [rest, name, List.head?_cons, Option.any_some, beq_self_eq_true, if_true,
            List.isEmpty_cons, Bool.false_eq_true, if_false, Option.map_some, byteLength_append,
            byteLength_cons, byteLength_nil, opening, closing]
          rw [byteLength_cons] at letters
          exact congrArg Option.some (by omega)
      · simp [rest, brace]
  · rw [other, if_neg Bool.false_ne_true]
    split
    · rename_i opens
      exact absurd opens (unopened _)
    · rfl

end Scanners

end FormulaMarkup.Bytes

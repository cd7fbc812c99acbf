import FormulaMarkup.Proofs.Source.Layout
import Mathlib.Data.List.TakeWhile

/-!
Texts as bytes. A place in a text is a count of bytes in its UTF-8 form. The operations here are the
ones that can fail, with no result where they do: a slice of a text has to lie in the text with both
of its ends between characters. Tests for ASCII characters may be made byte by byte, since no byte of
another character passes for one.
-/
namespace FormulaMarkup.Bytes

open Source (byteLength byteLength_append byteLength_cons byteLength_nil)

/-! ## Slices -/

/-- Splits a text at a byte; there is no such place inside of a character or behind the end. -/
def splitAt? : List Char → Nat → Option (List Char × List Char)
  | cs, 0 => some ([], cs)
  | [], _ + 1 => none
  | c :: cs, n + 1 =>
    if c.utf8Size ≤ n + 1 then
      (splitAt? cs (n + 1 - c.utf8Size)).map fun (front, back) => (c :: front, back)
    else none

/-- The text from one byte up to another. -/
def slice? (text : List Char) (start stop : Nat) : Option (List Char) := do
  if start ≤ stop then
    let (front, _) ← splitAt? text stop
    let (_, inside) ← splitAt? front start
    return inside
  else none

/-- The text from a byte on. -/
def sliceFrom? (text : List Char) (start : Nat) : Option (List Char) :=
  (splitAt? text start).map (·.2)

/-- The first items of a list, which has to have as many. -/
def take? {α : Type} (items : List α) (count : Nat) : Option (List α) :=
  if count ≤ items.length then some (items.take count) else none

/-- The items of a list behind the first ones, of which it has to have as many. -/
def drop? {α : Type} (items : List α) (count : Nat) : Option (List α) :=
  if count ≤ items.length then some (items.drop count) else none

theorem splitAt?_append (front back : List Char) :
    splitAt? (front ++ back) (byteLength front) = some (front, back) := by
  induction front with
  | nil =>
    cases back with
    | nil => rfl
    | cons c cs => rfl
  | cons c cs ih =>
    have size := c.utf8Size_pos
    obtain ⟨n, place⟩ : ∃ n, byteLength (c :: cs) = n + 1 := by
      rw [byteLength_cons]
      exact ⟨c.utf8Size + byteLength cs - 1, by omega⟩
    have further : n + 1 - c.utf8Size = byteLength cs := by
      rw [byteLength_cons] at place
      omega
    have inside : c.utf8Size ≤ n + 1 := by
      rw [byteLength_cons] at place
      omega
    rw [place, List.cons_append, splitAt?, if_pos inside, further, ih]
    rfl

/-- A text has a place at a byte exactly where a character ends. -/
theorem splitAt?_eq_some_iff {text front back : List Char} {place : Nat} :
    splitAt? text place = some (front, back) ↔ text = front ++ back ∧ place = byteLength front := by
  constructor
  · intro found
    induction text generalizing place front with
    | nil =>
      cases place with
      | zero =>
        obtain ⟨rfl, rfl⟩ := Prod.mk.inj (Option.some.inj found)
        exact ⟨rfl, rfl⟩
      | succ n => contradiction
    | cons c cs ih =>
      cases place with
      | zero =>
        obtain ⟨rfl, rfl⟩ := Prod.mk.inj (Option.some.inj found)
        exact ⟨rfl, rfl⟩
      | succ n =>
        rw [splitAt?] at found
        split at found
        · obtain ⟨⟨inner, rest⟩, split, same⟩ := Option.map_eq_some_iff.mp found
          obtain ⟨rfl, rfl⟩ := Prod.mk.inj same
          obtain ⟨rfl, place⟩ := ih split
          constructor
          · rfl
          · rw [byteLength_cons]
            omega
        · contradiction
  · rintro ⟨rfl, rfl⟩
    exact splitAt?_append front back

/-- A slice is there exactly if the text has it between two places where characters end. -/
theorem slice?_eq_some_iff {text inside : List Char} {start stop : Nat} :
    slice? text start stop = some inside ↔ ∃ before behind, text = before ++ inside ++ behind ∧
      start = byteLength before ∧ stop = byteLength (before ++ inside) := by
  unfold slice?
  constructor
  · intro found
    split at found
    · obtain ⟨⟨front, behind⟩, whole, found⟩ := Option.bind_eq_some_iff.mp found
      obtain ⟨⟨before, rest⟩, part, found⟩ := Option.bind_eq_some_iff.mp found
      obtain rfl := Option.some.inj found
      obtain ⟨rfl, rfl⟩ := splitAt?_eq_some_iff.mp whole
      obtain ⟨rfl, rfl⟩ := splitAt?_eq_some_iff.mp part
      exact ⟨before, behind, rfl, rfl, rfl⟩
    · contradiction
  · rintro ⟨before, behind, rfl, rfl, rfl⟩
    have ordered : byteLength before ≤ byteLength (before ++ inside) := by
      rw [byteLength_append]
      exact Nat.le_add_right _ _
    rw [if_pos ordered, splitAt?_append]
    change (splitAt? (before ++ inside) (byteLength before)).bind _ = _
    rw [splitAt?_append]
    rfl

theorem slice?_append (before inside behind : List Char) :
    slice? (before ++ inside ++ behind) (byteLength before) (byteLength (before ++ inside)) = some inside :=
  slice?_eq_some_iff.mpr ⟨before, behind, rfl, rfl, rfl⟩

theorem sliceFrom?_append (before behind : List Char) :
    sliceFrom? (before ++ behind) (byteLength before) = some behind := by
  rw [sliceFrom?, splitAt?_append]
  rfl

/-! ## UTF-8 -/

def utf8 (text : List Char) : List UInt8 := text.flatMap String.utf8EncodeChar

/-- The places of the characters that pass a test, in a text that starts at a place. -/
def places (test : Char → Bool) (place : Nat) : List Char → List Nat
  | [] => []
  | c :: cs =>
    if test c then place :: places test (place + c.utf8Size) cs else places test (place + c.utf8Size) cs

/-- A test for characters, made on a byte. -/
def onByte (test : Char → Bool) (byte : UInt8) : Bool := test (Char.ofNat byte.toNat)

/-- The places of the bytes that pass a test, among bytes that start at a place. -/
def bytePlaces (test : Char → Bool) (place : Nat) : List UInt8 → List Nat
  | [] => []
  | byte :: bytes =>
    if onByte test byte then place :: bytePlaces test (place + 1) bytes
    else bytePlaces test (place + 1) bytes

/-- A test that says the same of all characters that are not ASCII. -/
def Ascii (test : Char → Bool) (other : Bool) : Prop := ∀ c : Char, 128 ≤ c.toNat → test c = other

theorem utf8_append (front back : List Char) : utf8 (front ++ back) = utf8 front ++ utf8 back :=
  List.flatMap_append

theorem utf8_cons (c : Char) (cs : List Char) : utf8 (c :: cs) = String.utf8EncodeChar c ++ utf8 cs :=
  List.flatMap_cons

theorem length_utf8 (text : List Char) : (utf8 text).length = byteLength text := by
  induction text with
  | nil => rfl
  | cons c cs ih =>
    rw [utf8_cons, List.length_append, ih, String.length_utf8EncodeChar, byteLength_cons]

theorem drop_utf8 (before rest : List Char) : (utf8 (before ++ rest)).drop (byteLength before) = utf8 rest := by
  rw [utf8_append, ← length_utf8, List.drop_left]

theorem encode_low {c : Char} (low : c.toNat < 128) :
    String.utf8EncodeChar c = [UInt8.ofNat c.toNat] ∧ c.utf8Size = 1 := by
  have encoded : String.utf8EncodeChar c = [UInt8.ofNat c.toNat] := by
    unfold String.utf8EncodeChar
    exact if_pos (Nat.le_of_lt_succ low)
  constructor
  · exact encoded
  · rw [← String.length_utf8EncodeChar, encoded]
    rfl

theorem encode_high {c : Char} (high : 128 ≤ c.toNat) :
    ∀ byte ∈ String.utf8EncodeChar c, 128 ≤ byte.toNat := by
  have value : c.val.toNat = c.toNat := rfl
  unfold String.utf8EncodeChar
  dsimp only
  rw [if_neg (by omega)]
  intro byte listed
  split at listed
  · simp only [List.mem_cons, List.not_mem_nil, or_false] at listed
    rcases listed with rfl | rfl <;> simp only [UInt8.toNat_ofNat'] <;> omega
  · split at listed
    · simp only [List.mem_cons, List.not_mem_nil, or_false] at listed
      rcases listed with rfl | rfl | rfl <;> simp only [UInt8.toNat_ofNat'] <;> omega
    · simp only [List.mem_cons, List.not_mem_nil, or_false] at listed
      rcases listed with rfl | rfl | rfl | rfl <;> simp only [UInt8.toNat_ofNat'] <;> omega

section Tests

variable {test : Char → Bool} {other : Bool} (ascii : Ascii test other)

theorem onByte_low {c : Char} (low : c.toNat < 128) : onByte test (UInt8.ofNat c.toNat) = test c := by
  have same : (UInt8.ofNat c.toNat).toNat = c.toNat := by
    rw [UInt8.toNat_ofNat']
    omega
  rw [onByte, same, Char.ofNat_toNat]

include ascii

theorem onByte_high {byte : UInt8} (high : 128 ≤ byte.toNat) : onByte test byte = other := by
  have small := byte.toNat_lt
  have valid : byte.toNat.isValidChar := .inl (by omega)
  have built : Char.ofNat byte.toNat = Char.ofNatAux byte.toNat valid := dif_pos valid
  have value : (Char.ofNat byte.toNat).toNat = byte.toNat := by
    rw [built]
    rfl
  apply ascii
  rwa [value]

/- Going over the bytes of a text as long as they pass a test goes over the characters that do. -/
theorem length_takeWhile_utf8 (text : List Char) :
    ((utf8 text).takeWhile (onByte test)).length = byteLength (text.takeWhile test) := by
  induction text with
  | nil => rfl
  | cons c cs ih =>
    rw [utf8_cons]
    by_cases low : c.toNat < 128
    · obtain ⟨encoded, size⟩ := encode_low low
      rw [encoded, List.singleton_append, List.takeWhile_cons, List.takeWhile_cons, onByte_low low]
      split
      · rw [List.length_cons, ih, byteLength_cons, size, Nat.add_comm]
      · rfl
    · have high : ∀ byte ∈ String.utf8EncodeChar c, onByte test byte = other :=
        fun byte listed => onByte_high ascii (encode_high (Nat.le_of_not_lt low) byte listed)
      rw [List.takeWhile_cons, ascii c (Nat.le_of_not_lt low)]
      cases other with
      | true =>
        rw [List.takeWhile_append_of_pos high, List.length_append, ih, String.length_utf8EncodeChar,
          if_pos rfl, byteLength_cons]
      | false =>
        cases encoded : String.utf8EncodeChar c with
        | nil =>
          have size := c.utf8Size_pos
          rw [← String.length_utf8EncodeChar, encoded] at size
          contradiction
        | cons first rest =>
          rw [encoded] at high
          rw [List.cons_append, List.takeWhile_cons, high first (List.mem_cons_self ..)]
          rfl

end Tests

/- The byte at a place passes for an ASCII character exactly if the character there does. -/
theorem head_utf8 {test : Char → Bool} (ascii : Ascii test false) (before rest : List Char) :
    ((utf8 (before ++ rest))[byteLength before]?).any (onByte test) = rest.head?.any test := by
  rw [← List.head?_drop, drop_utf8]
  cases rest with
  | nil => rfl
  | cons c cs =>
    rw [utf8_cons]
    by_cases low : c.toNat < 128
    · rw [(encode_low low).1]
      exact onByte_low low
    · have size := c.utf8Size_pos
      rw [← String.length_utf8EncodeChar] at size
      obtain ⟨first, more, encoded⟩ := List.exists_cons_of_length_pos size
      have high := encode_high (Nat.le_of_not_lt low) first (encoded ▸ List.mem_cons_self ..)
      rw [encoded]
      exact (onByte_high ascii high).trans (ascii c (Nat.le_of_not_lt low)).symm

/- A search for an ASCII character among the bytes finds the first such character. -/
theorem findIdx?_utf8 {test : Char → Bool} (ascii : Ascii test false) (text : List Char) :
    (utf8 text).findIdx? (onByte test) =
      if text.any test then some (byteLength (text.takeWhile (! test ·))) else none := by
  induction text with
  | nil => rfl
  | cons c cs ih =>
    rw [utf8_cons, List.findIdx?_append, ih, List.any_cons, List.takeWhile_cons]
    by_cases low : c.toNat < 128
    · obtain ⟨encoded, size⟩ := encode_low low
      rw [encoded, List.findIdx?_singleton, onByte_low low]
      cases test c with
      | true => rfl
      | false =>
        simp only [Bool.false_eq_true, if_false, Bool.false_or, Option.none_or, Bool.not_false, if_true,
          List.length_singleton, byteLength_cons, size]
        split
        · rw [Option.map_some, Nat.add_comm]
        · rfl
    · have high : (String.utf8EncodeChar c).findIdx? (onByte test) = none := by
        rw [List.findIdx?_eq_none_iff]
        exact fun byte listed => onByte_high ascii (encode_high (Nat.le_of_not_lt low) byte listed)
      rw [high, ascii c (Nat.le_of_not_lt low), String.length_utf8EncodeChar]
      simp only [Bool.false_or, Option.none_or, Bool.not_false, if_true, byteLength_cons]
      split
      · rw [Option.map_some, Nat.add_comm]
      · rfl

theorem bytePlaces_other {test : Char → Bool} {place : Nat} {front back : List UInt8}
    (other : ∀ byte ∈ front, onByte test byte = false) :
    bytePlaces test place (front ++ back) = bytePlaces test (place + front.length) back := by
  induction front generalizing place with
  | nil => rfl
  | cons byte bytes ih =>
    rw [List.cons_append, bytePlaces, other byte (List.mem_cons_self ..), if_neg Bool.false_ne_true,
      ih fun b listed => other b (List.mem_cons_of_mem byte listed), List.length_cons, Nat.add_assoc,
      Nat.add_comm 1]

/- A search for ASCII characters among the bytes finds all of them, and nothing else. -/
theorem bytePlaces_utf8 {test : Char → Bool} (ascii : Ascii test false) (place : Nat) (text : List Char) :
    bytePlaces test place (utf8 text) = places test place text := by
  induction text generalizing place with
  | nil => rfl
  | cons c cs ih =>
    rw [utf8_cons, places, ← ih]
    by_cases low : c.toNat < 128
    · obtain ⟨encoded, size⟩ := encode_low low
      rw [encoded, List.singleton_append, bytePlaces, onByte_low low, size]
    · rw [ascii c (Nat.le_of_not_lt low), if_neg Bool.false_ne_true, bytePlaces_other,
        String.length_utf8EncodeChar]
      exact fun byte listed => onByte_high ascii (encode_high (Nat.le_of_not_lt low) byte listed)

/- A text of ASCII characters stands at the start of the bytes of a text exactly if it stands at the
start of the text. -/
theorem prefix_utf8 {front text : List Char} (low : ∀ c ∈ front, c.toNat < 128) :
    utf8 front <+: utf8 text ↔ front <+: text := by
  induction front generalizing text with
  | nil => exact ⟨fun _ => List.nil_prefix, fun _ => List.nil_prefix⟩
  | cons a front ih =>
    have small := low a (List.mem_cons_self ..)
    have byte : (UInt8.ofNat a.toNat).toNat = a.toNat := by
      rw [UInt8.toNat_ofNat']
      omega
    have further (text : List Char) : utf8 front <+: utf8 text ↔ front <+: text :=
      ih fun c listed => low c (List.mem_cons_of_mem a listed)
    rw [utf8_cons, (encode_low small).1, List.singleton_append]
    cases text with
    | nil => simp [utf8]
    | cons c cs =>
      rw [utf8_cons, List.cons_prefix_cons, ← further]
      by_cases same : c.toNat < 128
      · have other : (UInt8.ofNat c.toNat).toNat = c.toNat := by
          rw [UInt8.toNat_ofNat']
          omega
        rw [(encode_low same).1, List.singleton_append, List.cons_prefix_cons]
        apply and_congr_left'
        constructor
        · intro bytes
          rw [bytes, other] at byte
          exact Char.ext (UInt32.toNat_inj.mp byte.symm)
        · exact fun chars => by rw [chars]
      · have size := c.utf8Size_pos
        rw [← String.length_utf8EncodeChar] at size
        obtain ⟨first, more, encoded⟩ := List.exists_cons_of_length_pos size
        have high := encode_high (Nat.le_of_not_lt same) first (encoded ▸ List.mem_cons_self ..)
        rw [encoded, List.cons_append, List.cons_prefix_cons]
        constructor
        · rintro ⟨rfl, _⟩
          omega
        · rintro ⟨rfl, _⟩
          contradiction

end FormulaMarkup.Bytes

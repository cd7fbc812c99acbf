import FormulaMarkup.Markup.Written
import FormulaMarkup.Proofs.Bytes.Scanning

/-!
Writing by places. Element content is written by copying the slices between the characters that are
escaped, which are looked for among the bytes. No slice fails, and an element is written as it is when
its text is taken character by character. Main statement: `written?_eq`.
-/
namespace FormulaMarkup.Bytes

open Source (byteLength byteLength_append byteLength_cons byteLength_nil)

def isEscaped (c : Char) : Bool := c == '&' || c == '<' || c == '>'

/-- What is written for an escaped character. -/
def entity (byte : UInt8) : List Char :=
  if onByte (· == '&') byte then "&amp;".toList
  else if onByte (· == '<') byte then "&lt;".toList
  else "&gt;".toList

/-- The content from a place on, with the places of the characters to escape. -/
def contentFrom? (text : List Char) (last : Nat) : List Nat → Option (List Char)
  | [] => sliceFrom? text last
  | place :: further => do
    let plain ← slice? text last place
    let byte ← (utf8 text)[place]?
    return plain ++ entity byte ++ (← contentFrom? text (place + 1) further)

def content? (text : String) : Option (List Char) :=
  contentFrom? text.toList 0 (bytePlaces isEscaped 0 (utf8 text.toList))

mutual

/-- The written form of an element that stands at the given level of nesting. -/
def writtenAt? (width level : Nat) : Element → Option (List Char)
  | ⟨tag, attributes, text, children⟩ => do
    let content ← content? text
    let inner ← writtenAll? width level children
    let ending := if children.isEmpty then [] else lineBreak width level
    return '<' :: tag.toList ++ writtenAttributes attributes ++ ['>'] ++ content ++ inner ++ ending ++
      "</".toList ++ tag.toList ++ ['>']

/-- The children of an element at the given level, each on a line of its own. -/
def writtenAll? (width level : Nat) : List Element → Option (List Char)
  | [] => some []
  | child :: rest => do
    let first ← writtenAt? width (level + 1) child
    return lineBreak width (level + 1) ++ first ++ (← writtenAll? width level rest)

end

def written? (e : Element) (width : Nat) : Option String := do
  return String.ofList (← writtenAt? width 0 e)

theorem ascii_isEscaped : Ascii isEscaped false :=
  ((ascii_eq (by decide)).or (ascii_eq (by decide))).or (ascii_eq (by decide))

theorem contentChar_plain {c : Char} (plain : isEscaped c = false) : Escape.contentChar c = [c] := by
  unfold Escape.contentChar
  split
  · contradiction
  · contradiction
  · contradiction
  · rfl

theorem entity_eq {c : Char} {byte : UInt8} (escaped : isEscaped c)
    (same : ∀ test, Ascii test false → onByte test byte = test c) :
    entity byte = Escape.contentChar c := by
  have ampersand := same (· == '&') (ascii_eq (by decide))
  have less := same (· == '<') (ascii_eq (by decide))
  rw [entity, ampersand, less]
  simp only [isEscaped, Bool.or_eq_true, beq_iff_eq] at escaped
  rcases escaped with (rfl | rfl) | rfl <;> rfl

/- The characters between the last place and the next escaped one are copied. -/
theorem contentFrom?_eq (copied plain rest : List Char) :
    contentFrom? (copied ++ plain ++ rest) (byteLength copied)
        (places isEscaped (byteLength (copied ++ plain)) rest) =
      some (plain ++ rest.flatMap Escape.contentChar) := by
  induction rest generalizing copied plain with
  | nil =>
    rw [places, contentFrom?, List.append_assoc, sliceFrom?_append]
    rfl
  | cons c cs ih =>
    rw [places, List.flatMap_cons]
    by_cases escaped : isEscaped c
    · have size := ascii_isEscaped.size_eq escaped
      have here : At (utf8 (copied ++ plain ++ c :: cs)) (byteLength (copied ++ plain)) (c :: cs) :=
        ⟨copied ++ plain, rfl, rfl⟩
      obtain ⟨byte, found, same⟩ := here.head_eq
      have further := ih (copied ++ plain ++ [c]) []
      rw [List.append_nil, List.append_assoc _ [c], List.singleton_append, byteLength_append _ [c],
        byteLength_cons, byteLength_nil, size] at further
      rw [if_pos escaped, contentFrom?, slice?_append, size]
      change ((utf8 (copied ++ plain ++ c :: cs))[byteLength (copied ++ plain)]?).bind _ = _
      rw [found, Option.bind_some, further, entity_eq escaped same]
      simp
    · have further := ih copied (plain ++ [c])
      rw [← List.append_assoc, List.append_assoc _ [c], List.singleton_append, byteLength_append _ [c],
        byteLength_cons, byteLength_nil, Nat.add_zero] at further
      rw [if_neg escaped, further, contentChar_plain (by simpa using escaped), List.append_assoc]

theorem content?_eq (text : String) : content? text = some (Escape.content text) := by
  rw [content?, bytePlaces_utf8 ascii_isEscaped]
  exact contentFrom?_eq [] [] text.toList

/-! ## Elements -/

mutual

theorem writtenAt?_eq (width level : Nat) :
    (e : Element) → writtenAt? width level e = some (e.writtenAt width level)
  | ⟨tag, attributes, text, children⟩ => by
    obtain ⟨inner, written, ending⟩ := writtenAll?_eq width level children
    rw [writtenAt?, content?_eq, written, Element.writtenAt, ← ending]
    simp

/- The line break behind the last child is written by the element. -/
theorem writtenAll?_eq (width level : Nat) : (children : List Element) →
    ∃ inner, writtenAll? width level children = some inner ∧
      inner ++ (if children.isEmpty then [] else lineBreak width level) =
        writtenChildren width level children
  | [] => ⟨[], rfl, rfl⟩
  | child :: rest => by
    obtain ⟨inner, written, ending⟩ := writtenAll?_eq width level rest
    rw [writtenAll?, writtenAt?_eq width (level + 1) child, written]
    refine ⟨_, rfl, ?_⟩
    cases rest with
    | nil =>
      obtain rfl := by simpa using ending
      simp [writtenChildren]
    | cons next more =>
      rw [List.isEmpty_cons, if_neg Bool.false_ne_true] at ending ⊢
      rw [writtenChildren, ← ending]
      · simp
      · simp

end

theorem written?_eq (e : Element) (width : Nat) : written? e width = some (e.written width) := by
  rw [written?, writtenAt?_eq]
  rfl

end FormulaMarkup.Bytes

import FormulaMarkup.Proofs.Bytes.Writing
import FormulaMarkup.Proofs.Markup.Reading

/-!
Escaping into a buffer. Element content is put behind what a buffer holds in one pass over the bytes
to escape: the slice in front of each is copied, then its entity is written. Main statement: the pass
appends what the map of the characters gives, which holds no bracket, and decoding undoes it.
-/
namespace FormulaMarkup

namespace Escape

theorem contentChar_eq (c : Char) :
    contentChar c =
      if c = '&' then "&amp;".toList
      else if c = '<' then "&lt;".toList
      else if c = '>' then "&gt;".toList
      else [c] := by
  unfold contentChar
  split
  · rfl
  · rfl
  · rfl
  · rename_i amp less greater
    rw [if_neg amp, if_neg less, if_neg greater]

theorem gt_notMem_content (s : String) : '>' ∉ content s := by
  intro found
  obtain ⟨c, -, hc⟩ := List.mem_flatMap.mp found
  unfold contentChar at hc
  split at hc
  · exact absurd hc (by decide)
  · exact absurd hc (by decide)
  · exact absurd hc (by decide)
  · rename_i other
    exact other (List.mem_singleton.mp hc).symm

/-- What stands behind the ampersand of an entity of element content. -/
def contentEntities : List String := ["amp;", "lt;", "gt;"]

theorem entity_of_contentChar {c : Char} {front back : List Char}
    (split : contentChar c = front ++ '&' :: back) : String.ofList back ∈ contentEntities := by
  have once (name : List Char) (plain : '&' ∉ name) (whole : '&' :: name = front ++ '&' :: back) :
      back = name := by
    cases front with
    | nil => exact (List.cons.inj whole).2.symm
    | cons first more =>
      have inside : name = more ++ '&' :: back := (List.cons.inj whole).2
      exact absurd (inside ▸ List.mem_append_right more List.mem_cons_self) plain
  unfold contentChar at split
  split at split
  · rw [once "amp;".toList (by decide) split]
    decide
  · rw [once "lt;".toList (by decide) split]
    decide
  · rw [once "gt;".toList (by decide) split]
    decide
  · rename_i amp _ _
    have mem : '&' ∈ front ++ '&' :: back := List.mem_append_right front List.mem_cons_self
    rw [← split] at mem
    exact absurd (List.mem_singleton.mp mem).symm amp

/-- Every ampersand of escaped characters is the start of an entity. -/
theorem entity_of_flatMap {cs front back : List Char}
    (split : cs.flatMap contentChar = front ++ '&' :: back) :
    ∃ entity ∈ contentEntities, entity.toList <+: back := by
  induction cs generalizing front with
  | nil => simp at split
  | cons c cs ih =>
    rw [List.flatMap_cons, List.append_eq_append_iff] at split
    rcases split with ⟨more, -, rest⟩ | ⟨inside, image, rest⟩
    · exact ih rest
    · cases inside with
      | nil =>
        have again : cs.flatMap contentChar = [] ++ '&' :: back := rest.symm
        exact ih again
      | cons first more =>
        -- The ampersand stands in the image of the character, and the entity ends with it.
        obtain ⟨rfl, rfl⟩ := List.cons.inj rest
        refine ⟨_, entity_of_contentChar image, ?_⟩
        rw [String.toList_ofList]
        exact List.prefix_append more _

end Escape

namespace Bytes

open Source (byteLength byteLength_append byteLength_cons byteLength_nil)

/-! ## The pass -/

/-- What a buffer holds, and the place behind the last byte that was escaped. -/
abbrev Buffer := String × Nat

/-- Copies what stands in front of a byte to escape, and writes its entity. -/
def escapeAt? (text : List Char) (buffer : Buffer) (place : Nat) : Option Buffer := do
  let plain ← slice? text buffer.2 place
  let byte ← (utf8 text)[place]?
  return (buffer.1 ++ String.ofList plain ++ String.ofList (entity byte), place + 1)

/-- Copies what stands behind the last byte that was escaped. -/
def copyRest? (text : List Char) (buffer : Buffer) : Option String := do
  return buffer.1 ++ String.ofList (← sliceFrom? text buffer.2)

/-- Puts a text behind what a buffer holds, as element content. -/
def appendContent? (output text : String) : Option String := do
  let found := bytePlaces isEscaped 0 (utf8 text.toList)
  copyRest? text.toList (← found.foldlM (escapeAt? text.toList) (output, 0))

theorem copied_eq (text : List Char) (found : List Nat) (output : String) (last : Nat) :
    ((found.foldlM (escapeAt? text) (output, last)).bind (copyRest? text)) =
      (contentFrom? text last found).map fun added => output ++ String.ofList added := by
  induction found generalizing output last with
  | nil =>
    rw [contentFrom?, List.foldlM_nil]
    change (sliceFrom? text last).bind _ = _
    cases sliceFrom? text last <;> rfl
  | cons place found ih =>
    rw [contentFrom?, List.foldlM_cons, escapeAt?]
    cases slice? text last place with
    | none => rfl
    | some plain =>
      cases (utf8 text)[place]? with
      | none => rfl
      | some byte =>
        refine (ih _ _).trans ?_
        change _ = ((contentFrom? text (place + 1) found).bind _).map _
        cases contentFrom? text (place + 1) found with
        | none => rfl
        | some added => simp [String.ofList_append, String.append_assoc]

theorem appendContent?_eq (output text : String) :
    appendContent? output text = some (output ++ String.ofList (Escape.content text)) := by
  have whole : contentFrom? text.toList 0 (bytePlaces isEscaped 0 (utf8 text.toList)) =
      some (Escape.content text) := content?_eq text
  refine (copied_eq text.toList _ output 0).trans ?_
  rw [whole]
  rfl

/-- The places that a search for characters gives are those where one of them stands. -/
theorem mem_places {test : Char → Bool} {start place : Nat} {text : List Char}
    (found : place ∈ places test start text) :
    ∃ before c behind, text = before ++ c :: behind ∧ test c ∧ place = start + byteLength before := by
  induction text generalizing start with
  | nil => cases found
  | cons c cs ih =>
    have further (later : place ∈ places test (start + c.utf8Size) cs) :
        ∃ before d behind, c :: cs = before ++ d :: behind ∧ test d ∧
          place = start + byteLength before := by
      obtain ⟨before, d, behind, rfl, passes, rfl⟩ := ih later
      exact ⟨c :: before, d, behind, rfl, passes, by rw [byteLength_cons, Nat.add_assoc]⟩
    rw [places] at found
    split at found
    · rename_i passes
      rcases List.mem_cons.mp found with rfl | later
      · exact ⟨[], c, cs, rfl, passes, rfl⟩
      · exact further later
    · exact further found

/-- The pass over the bytes never fails and appends what the map of the characters gives. Each place
that it finds, and the one behind it, is a boundary between characters. What it appends holds no
bracket, and an ampersand only where an entity starts; decoding gives back the text, so different
texts are never written alike. -/
theorem appendContent?_escapes (output text : String) :
    appendContent? output text = some (output ++ String.ofList (Escape.content text)) ∧
      Escape.content text = text.toList.flatMap (fun c =>
        if c = '&' then "&amp;".toList
        else if c = '<' then "&lt;".toList
        else if c = '>' then "&gt;".toList
        else [c]) ∧
      (∀ place ∈ bytePlaces isEscaped 0 (utf8 text.toList), ∃ before c behind,
        text.toList = before ++ c :: behind ∧ place = byteLength before ∧
          place + 1 = byteLength (before ++ [c])) ∧
      '<' ∉ Escape.content text ∧ '>' ∉ Escape.content text ∧
      (∀ front back, Escape.content text = front ++ '&' :: back →
        ∃ entity ∈ Escape.contentEntities, entity.toList <+: back) ∧
      Escape.decode (Escape.content text) = text.toList ∧
      ∀ other, appendContent? output other = appendContent? output text → other = text := by
  refine ⟨appendContent?_eq output text, ?_, ?_, Escape.lt_notMem_content text,
    Escape.gt_notMem_content text, fun _ _ => Escape.entity_of_flatMap,
    Escape.decode_content text, ?_⟩
  · exact congrArg (text.toList.flatMap ·) (funext Escape.contentChar_eq)
  · intro place found
    rw [bytePlaces_utf8 ascii_isEscaped] at found
    obtain ⟨before, c, behind, split, escaped, rfl⟩ := mem_places found
    refine ⟨before, c, behind, split, Nat.zero_add _, ?_⟩
    rw [byteLength_append, byteLength_cons, byteLength_nil, ascii_isEscaped.size_eq escaped,
      Nat.zero_add]
  · intro other same
    rw [appendContent?_eq, appendContent?_eq] at same
    have added : Escape.content other = Escape.content text := by
      simpa [String.ext_iff] using same
    have decoded := congrArg Escape.decode added
    rw [Escape.decode_content, Escape.decode_content] at decoded
    exact String.toList_inj.mp decoded

theorem appendContent?_escapes_reference :
    appendContent? "x: " "α<&lt;" = some "x: α&lt;&amp;lt;" ∧
      (2 ∈ bytePlaces isEscaped 0 (utf8 "α<&lt;".toList) ∧
        ∃ before c behind, "α<&lt;".toList = before ++ c :: behind ∧ 2 = byteLength before ∧
          3 = byteLength (before ++ [c])) ∧
      (Escape.content "α<&lt;" = ['α'] ++ '&' :: "lt;&amp;lt;".toList ∧
        ∃ entity ∈ Escape.contentEntities, entity.toList <+: "lt;&amp;lt;".toList) ∧
      appendContent? "x: " "α&lt;&lt;" ≠ appendContent? "x: " "α<&lt;" := by
  have found : 2 ∈ bytePlaces isEscaped 0 (utf8 "α<&lt;".toList) := by decide +kernel
  have image : Escape.content "α<&lt;" = ['α'] ++ '&' :: "lt;&amp;lt;".toList := by decide +kernel
  obtain ⟨appended, -, boundary, -, -, entities, -, distinct⟩ :=
    appendContent?_escapes "x: " "α<&lt;"
  refine ⟨?_, ⟨found, boundary 2 found⟩, ⟨image, entities _ _ image⟩, ?_⟩
  · rw [appended, image]
    decide +kernel
  · exact fun same => absurd (distinct _ same) (by decide)

end Bytes

end FormulaMarkup

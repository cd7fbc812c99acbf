import FormulaMarkup.Proofs.Markup.Reading
import FormulaMarkup.Report.Snippet

/-!
What a reader finds in a snippet. Markup is followed character by character: a value ends at the next
quote and a text at the next bracket, and both are kept as they are written. Main statement: a snippet
is one element around another one, whatever the message and the source are, and no character of them
is more to the reader than a part of the title or of the text.
-/
namespace FormulaMarkup

/-! ## Following markup -/

namespace Verbatim

/-- Where in markup a character stands, with the names and the value that are being read. -/
inductive Spot where
  | text
  | bracket
  | startName (name : List Char)
  | attributeName (tag : String) (found : Attributes) (name : List Char)
  | equals (tag : String) (found : Attributes) (name : String)
  | value (tag : String) (found : Attributes) (name : String) (value : List Char)
  | behindValue (tag : String) (found : Attributes)
  | endName (name : List Char)
  deriving Repr, DecidableEq

/-- What has been found in markup so far. -/
structure Found where
  /-- The elements whose end tag is still to come, the innermost first. -/
  unclosed : List Element := []
  /-- The elements that are closed and stand in no other. -/
  closed : List Element := []
  spot : Spot := .text
  deriving Repr

namespace Found

def start (found : Found) (e : Element) : Found :=
  { found with unclosed := e :: found.unclosed, spot := .text }

/-- The end tag of an element: it has to be that of the innermost one. -/
def stop (found : Found) (name : String) : Option Found :=
  match found.unclosed with
  | [] => none
  | e :: rest =>
    if e.tag = name then
      match rest with
      | [] => some ⟨[], found.closed ++ [e], .text⟩
      | parent :: outer => some ⟨parent.appendChild e :: outer, found.closed, .text⟩
    else none

/-- A character of a text. All text stands in an element, in front of the elements that it holds. -/
def write (found : Found) (c : Char) : Option Found :=
  match found.unclosed with
  | [] => none
  | e :: rest =>
    if e.children.isEmpty then some { found with unclosed := e.setText (e.text.push c) :: rest }
    else none

def goTo (found : Found) (spot : Spot) : Option Found := some { found with spot }

/-- What has been found after one more character. -/
def after (found : Found) (c : Char) : Option Found :=
  match found.spot with
  | .text => if c = '<' then found.goTo .bracket else found.write c
  | .bracket =>
    if c = '/' then found.goTo (.endName [])
    else if c.isAlpha then found.goTo (.startName [c])
    else none
  | .startName name =>
    if c = '>' then some (found.start (.ofTag (String.ofList name)))
    else if c = ' ' then found.goTo (.attributeName (String.ofList name) [] [])
    else if c.isAlpha then found.goTo (.startName (name ++ [c]))
    else none
  | .attributeName tag attributes name =>
    if c = '=' then found.goTo (.equals tag attributes (String.ofList name))
    else if c.isAlpha then found.goTo (.attributeName tag attributes (name ++ [c]))
    else none
  | .equals tag attributes name =>
    if c = '"' then found.goTo (.value tag attributes name []) else none
  | .value tag attributes name value =>
    if c = '"' then found.goTo (.behindValue tag (attributes ++ [(name, String.ofList value)]))
    else found.goTo (.value tag attributes name (value ++ [c]))
  | .behindValue tag attributes =>
    if c = ' ' then found.goTo (.attributeName tag attributes [])
    else if c = '>' then some (found.start (.shell tag attributes))
    else none
  | .endName name =>
    if c = '>' then found.stop (String.ofList name)
    else if c.isAlpha then found.goTo (.endName (name ++ [c]))
    else none

end Found

def follow (found : Found) (text : List Char) : Option Found := text.foldlM Found.after found

/-- The elements that a text consists of, with their values and texts as they are written. -/
def read (text : List Char) : Option (List Element) :=
  match follow {} text with
  | some ⟨[], closed, .text⟩ => some closed
  | _ => none

theorem follow_append (found : Found) (front back : List Char) :
    follow found (front ++ back) = (follow found front).bind (follow · back) :=
  List.foldlM_append

/-- Only a quote ends a value. -/
theorem follow_value {value : List Char} (quoteless : '"' ∉ value) (unclosed closed : List Element)
    (tag : String) (attributes : Attributes) (name : String) (front : List Char) :
    follow ⟨unclosed, closed, .value tag attributes name front⟩ value =
      some ⟨unclosed, closed, .value tag attributes name (front ++ value)⟩ := by
  induction value generalizing front with
  | nil => rw [List.append_nil]; rfl
  | cons c rest ih =>
    rw [List.mem_cons, not_or] at quoteless
    obtain ⟨other, later⟩ := quoteless
    have next : Found.after ⟨unclosed, closed, .value tag attributes name front⟩ c =
        some ⟨unclosed, closed, .value tag attributes name (front ++ [c])⟩ := if_neg (Ne.symm other)
    rw [follow, List.foldlM_cons, next]
    exact (ih later (front ++ [c])).trans (by rw [List.append_assoc]; rfl)

/-- Only a bracket ends a text. -/
theorem follow_text {text : List Char} (plain : '<' ∉ text) (e : Element) (empty : e.children = [])
    (outer closed : List Element) :
    follow ⟨e :: outer, closed, .text⟩ text =
      some ⟨e.setText (e.text ++ String.ofList text) :: outer, closed, .text⟩ := by
  induction text generalizing e with
  | nil =>
    rw [String.ofList_nil, String.append_empty]
    cases e
    rfl
  | cons c rest ih =>
    rw [List.mem_cons, not_or] at plain
    obtain ⟨other, later⟩ := plain
    have next : Found.after ⟨e :: outer, closed, .text⟩ c =
        some ⟨e.setText (e.text.push c) :: outer, closed, .text⟩ := by
      have bare : e.children.isEmpty := List.isEmpty_iff.mpr empty
      exact (if_neg (Ne.symm other)).trans (if_pos bare)
    have whole : e.text.push c ++ String.ofList rest = e.text ++ String.ofList (c :: rest) := by
      rw [String.push_eq_append, String.append_assoc, String.ofList_cons]
    rw [follow, List.foldlM_cons, next, ← whole]
    exact ih later (e.setText (e.text.push c)) empty

end Verbatim

/-! ## Snippets -/

namespace Escape

theorem attributeValue_append (front back : String) :
    attributeValue (front ++ back) = attributeValue front ++ attributeValue back := by
  rw [attributeValue, String.toList_append, List.flatMap_append]
  rfl

/-- A text with neither an ampersand nor a quote is written as it is. -/
theorem attributeValue_plain {s : String} (plain : ∀ c ∈ s.toList, c ≠ '&' ∧ c ≠ '"') :
    attributeValue s = s.toList := by
  have kept : ∀ c ∈ s.toList, attributeChar c = [c] := by
    intro c mem
    obtain ⟨amp, quote⟩ := plain c mem
    unfold attributeChar
    split
    · contradiction
    · contradiction
    · rfl
  rw [attributeValue, List.flatMap_congr kept]
  exact List.flatMap_singleton' _

end Escape

namespace Snippet

open Verbatim

/-- What stands before the message. -/
def beforeMessage (display : Display) (cssClass : Option String) (start : Nat) : List Char :=
  '<' :: (tag display).toList ++ " class=\"".toList ++ (cssClass.getD defaultClass).toList ++
    "\" title=\"".toList ++ (toString start).toList ++ ": ".toList

def beforeSource : List Char := "\"><code>".toList

def behindSource (display : Display) : List Char :=
  "</code></".toList ++ (tag display).toList ++ ['>']

theorem written_eq (e : FormulaError) (source : String) (display : Display) (cssClass : Option String) :
    written e source display cssClass =
      beforeMessage display cssClass e.span.start ++ Escape.attributeValue e.cause.message ++
        beforeSource ++ Escape.content source ++ behindSource display := by
  unfold behindSource
  rw [← List.append_assoc, ← List.append_assoc]
  rfl

theorem follow_opening (display : Display) :
    follow {} ('<' :: (tag display).toList ++ " class=\"".toList) =
      some ⟨[], [], .value (tag display) [] "class" []⟩ := by
  cases display with
  | inline => rfl
  | block => rfl

theorem follow_title (name : String) (cssClass : List Char) :
    follow ⟨[], [], .value name [] "class" cssClass⟩ "\" title=\"".toList =
      some ⟨[], [], .value name [("class", String.ofList cssClass)] "title" []⟩ :=
  rfl

/-- The element of a snippet. -/
def frame (name cssClass title : String) : Element :=
  ⟨name, [("class", cssClass), ("title", title)], "", []⟩

theorem follow_code (name cssClass : String) (title : List Char) :
    follow ⟨[], [], .value name [("class", cssClass)] "title" title⟩ beforeSource =
      some ⟨[.ofTag "code", frame name cssClass (String.ofList title)], [], .text⟩ :=
  rfl

theorem follow_ending (display : Display) (cssClass title text : String) :
    follow ⟨[.ofText "code" text, frame (tag display) cssClass title], [], .text⟩
        (behindSource display) =
      some ⟨[], [(frame (tag display) cssClass title).appendChild (.ofText "code" text)], .text⟩ := by
  cases display with
  | inline => rfl
  | block => rfl

theorem start_plain (n : Nat) : ∀ c ∈ (toString n ++ ": ").toList, c ≠ '&' ∧ c ≠ '"' := by
  rw [String.toList_append, Nat.toString_eq_ofList_toDigits, String.toList_ofList]
  intro c mem
  rcases List.mem_append.mp mem with digit | colon
  · have digits : c.isDigit = true := Nat.isDigit_of_mem_toDigits (by decide) (by decide) digit
    constructor
    · rintro rfl
      contradiction
    · rintro rfl
      contradiction
  · obtain rfl | rfl : c = ':' ∨ c = ' ' := by simpa using colon
    · decide
    · decide

section

variable (display : Display) {cssClass : Option String}
  (quoteless : '"' ∉ (cssClass.getD defaultClass).toList) (start : Nat)

include quoteless

/-- All that is put behind the start of the title is part of the title, up to a quote. -/
theorem follow_message {message : List Char} (inside : '"' ∉ message) :
    follow {} (beforeMessage display cssClass start ++ message) =
      some ⟨[], [], .value (tag display) [("class", cssClass.getD defaultClass)] "title"
        ((toString start ++ ": ").toList ++ message)⟩ := by
  have plain : '"' ∉ (toString start ++ ": ").toList ++ message := by
    rw [List.mem_append, not_or]
    exact ⟨fun mem => (start_plain start '"' mem).2 rfl, inside⟩
  have shape : beforeMessage display cssClass start ++ message =
      '<' :: (tag display).toList ++ " class=\"".toList ++ (cssClass.getD defaultClass).toList ++
        "\" title=\"".toList ++ ((toString start ++ ": ").toList ++ message) := by
    rw [String.toList_append, ← List.append_assoc, ← List.append_assoc]
    rfl
  rw [shape, follow_append, follow_append, follow_append, follow_opening, Option.bind_some,
    follow_value quoteless, Option.bind_some, List.nil_append, follow_title, Option.bind_some,
    follow_value plain, String.ofList_toList, List.nil_append]

/-- All that is put behind the start of the text is part of the text, up to a bracket. -/
theorem follow_source {message source : List Char} (inside : '"' ∉ message) (plain : '<' ∉ source) :
    follow {} (beforeMessage display cssClass start ++ message ++ beforeSource ++ source) =
      some ⟨[.ofText "code" (String.ofList source),
        frame (tag display) (cssClass.getD defaultClass)
          (String.ofList ((toString start ++ ": ").toList ++ message))], [], .text⟩ := by
  rw [follow_append, follow_append, follow_message display quoteless start inside, Option.bind_some,
    follow_code, Option.bind_some, follow_text plain (.ofTag "code") rfl]
  rw [show (Element.ofTag "code").text = "" from rfl, String.empty_append]
  rfl

end

/-- A reader that takes a value up to the next quote and a text up to the next bracket finds one
element in a snippet, which holds one element with a text. It recovers the class as it is given, and
by decoding the place, the message and the source. Wherever it stands within the message it is in the
title, and wherever it stands within the source it is in the text. -/
theorem written_encloses (e : FormulaError) (source : String) (display : Display)
    (cssClass : Option String) (quoteless : '"' ∉ (cssClass.getD defaultClass).toList) :
    ∃ title text : String,
      read (written e source display cssClass) =
        some [⟨tag display, [("class", cssClass.getD defaultClass), ("title", title)], "",
          [⟨"code", [], text, []⟩]⟩] ∧
      Escape.decode title.toList = (toString e.span.start ++ ": " ++ e.cause.message).toList ∧
      Escape.decode text.toList = source.toList ∧
      written e source display cssClass =
        beforeMessage display cssClass e.span.start ++ Escape.attributeValue e.cause.message ++
          beforeSource ++ Escape.content source ++ behindSource display ∧
      (∀ part, part <+: Escape.attributeValue e.cause.message → ∃ found,
        follow {} (beforeMessage display cssClass e.span.start ++ part) = some found ∧
          found.spot = .value (tag display) [("class", cssClass.getD defaultClass)] "title"
            ((toString e.span.start ++ ": ").toList ++ part)) ∧
      ∀ part, part <+: Escape.content source → ∃ found,
        follow {} (beforeMessage display cssClass e.span.start ++
          Escape.attributeValue e.cause.message ++ beforeSource ++ part) = some found ∧
          found.spot = .text ∧
          found.unclosed = [⟨"code", [], String.ofList part, []⟩,
            ⟨tag display, [("class", cssClass.getD defaultClass), ("title", title)], "", []⟩] := by
  have inside := Escape.quote_notMem_attributeValue e.cause.message
  have plain := Escape.lt_notMem_content source
  have titled : (toString e.span.start ++ ": ").toList ++ Escape.attributeValue e.cause.message =
      Escape.attributeValue (toString e.span.start ++ ": " ++ e.cause.message) := by
    rw [Escape.attributeValue_append, Escape.attributeValue_plain (start_plain e.span.start)]
  refine ⟨String.ofList ((toString e.span.start ++ ": ").toList ++
      Escape.attributeValue e.cause.message), String.ofList (Escape.content source),
    ?_, ?_, ?_, written_eq .., ?_, ?_⟩
  · rw [Verbatim.read, written_eq, follow_append, follow_source display quoteless e.span.start inside plain,
      Option.bind_some, follow_ending]
    rfl
  · rw [String.toList_ofList, titled, Escape.decode_attributeValue]
  · rw [String.toList_ofList, Escape.decode_content]
  · intro part front
    have quoted : '"' ∉ part := fun mem => inside (front.subset mem)
    exact ⟨_, follow_message display quoteless e.span.start quoted, rfl⟩
  · intro part front
    have bare : '<' ∉ part := fun mem => plain (front.subset mem)
    exact ⟨_, follow_source display quoteless e.span.start inside bare, rfl, rfl⟩

/-- A width and a source that look like the ends of what they stand in. -/
theorem written_encloses_markup :
    '"' ∉ ((some "error <b>").getD defaultClass).toList ∧
      ∃ title text : String,
        Verbatim.read (written ⟨⟨6, 9⟩, .invalidWidth "\"><p>"⟩ "</code>&\"" .block (some "error <b>")) =
          some [⟨"p", [("class", "error <b>"), ("title", title)], "", [⟨"code", [], text, []⟩]⟩] ∧
        Escape.decode title.toList = "6: Expected an integer width, got \"\"><p>\".".toList ∧
        Escape.decode text.toList = "</code>&\"".toList := by
  have quoteless : '"' ∉ ((some "error <b>").getD defaultClass).toList := by decide +kernel
  obtain ⟨title, text, shape, place, source, -⟩ :=
    written_encloses ⟨⟨6, 9⟩, .invalidWidth "\"><p>"⟩ "</code>&\"" .block (some "error <b>") quoteless
  exact ⟨quoteless, title, text, shape, place, source⟩

end Snippet

end FormulaMarkup

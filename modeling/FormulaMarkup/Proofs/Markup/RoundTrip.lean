import FormulaMarkup.Proofs.Render.Tidy

/-!
Main statement: the written form of an element says which element it is, at every width, and it does
so for every converted formula.
-/
namespace FormulaMarkup

instance : DecidablePred Element.Named := fun e =>
  inferInstanceAs (Decidable (IsName e.tag ∧ ∀ entry ∈ e.attributes, IsName entry.1))

theorem Element.Tidy.named {e : Element} (tidy : e.Tidy) : e.All Element.Named :=
  tidy.mono fun _ neat => neat.named

namespace Element

/-- One reader recovers every element whose names are letters, whatever its text, its values and the
width it is written with are. So different elements are never written alike, what is pretty and what
is compact denote one tree, and the text of every converted formula gives back its element. -/
theorem written_denotes :
    (∀ e : Element, e.All Named → ∀ width, read (e.written width) = some e) ∧
    (∀ e other : Element, e.All Named → other.All Named →
      ∀ width otherWidth, e.written width = other.written otherWidth → e = other) ∧
    (∀ e : Element, e.All Named → ∀ width, read (e.written width) = read (e.written 0)) ∧
    (∀ (converter : Converter) (source : String) (display : Display) (e : Element),
      converter.toElement source display = .ok e → e.All Named) ∧
    ∀ (converter : Converter) (source : String) (display : Display) (text : String),
      converter.convert source display = .ok text →
        ∃ e, converter.toElement source display = .ok e ∧ read text = some e := by
  have named (converter : Converter) (source : String) (display : Display) (e : Element)
      (drawn : converter.toElement source display = .ok e) : e.All Named :=
    (Converter.toElement_tidy drawn).named
  refine ⟨?_, ?_, ?_, named, ?_⟩
  · intro e letters width
    exact read_written letters width
  · intro e other letters otherLetters width otherWidth same
    have back := read_written letters width
    rw [same, read_written otherLetters otherWidth] at back
    exact (Option.some.inj back).symm
  · intro e letters width
    rw [read_written letters width, read_written letters 0]
  · intro converter source display text converted
    unfold Converter.convert at converted
    cases drawn : converter.toElement source display with
    | error wrong =>
      rw [drawn] at converted
      contradiction
    | ok e =>
      rw [drawn] at converted
      cases converted
      exact ⟨e, rfl, read_written (named converter source display e drawn) _⟩

/-- An element with a text that looks like an indent, and children behind it. -/
def indented : Element :=
  ⟨"mrow", [("title", "a<\"b\">")], "\n  <mi>", [⟨"mi", [], "x & y\n", []⟩, ofTag "mrow"]⟩

theorem written_denotes_indented :
    indented.All Named ∧ (indented.setText "").All Named ∧
      read (indented.written 2) = some indented ∧
      read (indented.written 2) = read (indented.written 0) ∧
      (indented.setText "").written 2 ≠ indented.written 0 ∧
      ∃ e, ({} : Converter).toElement "a^2" .block = .ok e ∧ e.All Named ∧
        read "<math display=\"block\"><mrow><msup><mi>a</mi><mn>2</mn></msup></mrow></math>" = some e := by
  have letters : indented.All Named := by decide
  have bare : (indented.setText "").All Named := by decide
  have differ : indented.setText "" ≠ indented := by decide
  have converted : ({} : Converter).convert "a^2" .block =
      .ok "<math display=\"block\"><mrow><msup><mi>a</mi><mn>2</mn></msup></mrow></math>" := by
    decide +kernel
  obtain ⟨recovered, distinct, same, named, denoted⟩ := written_denotes
  obtain ⟨e, drawn, back⟩ := denoted {} "a^2" .block _ converted
  exact ⟨letters, bare, recovered _ letters 2, same _ letters 2,
    fun alike => differ (distinct _ _ bare letters 2 0 alike), e, drawn, named _ _ _ e drawn, back⟩

end Element

end FormulaMarkup

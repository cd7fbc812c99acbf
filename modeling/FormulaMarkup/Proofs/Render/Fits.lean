import FormulaMarkup.Proofs.Markup.Reading
import FormulaMarkup.Proofs.Render.Traversal

/-!
Elements that fit: some tags ask for a number of children, and an element fits if it has as many. What
is drawn for glyphs and for the frame of a table has only tags that ask for none.
-/
namespace FormulaMarkup

/-! ## Elements that fit -/

namespace Element

/-- How many children a tag asks for, if it asks for a number of them. -/
def asked? : String → Option Nat
  | "mfrac" | "mroot" | "msub" | "msup" | "munder" | "mover" => some 2
  | "msubsup" | "munderover" => some 3
  | _ => none

/-- An element has as many children as its tag asks for. -/
def Fits (e : Element) : Prop := (asked? e.tag).all (e.children.length == ·) = true

instance : DecidablePred Fits := fun _ => inferInstanceAs (Decidable (_ = true))

/-- All elements of a list fit at every depth. -/
def FitAll (elements : List Element) : Prop := ∀ e ∈ elements, e.All Fits

@[simp] theorem fitAll_nil : FitAll [] := by
  simp [FitAll]

@[simp] theorem fitAll_cons {e : Element} {rest : List Element} :
    FitAll (e :: rest) ↔ e.All Fits ∧ FitAll rest :=
  List.forall_mem_cons

@[simp] theorem fitAll_append {front back : List Element} :
    FitAll (front ++ back) ↔ FitAll front ∧ FitAll back :=
  List.forall_mem_append

/-- Under a tag that asks for no number, only what is inside counts. -/
theorem fit_free {e : Element} (free : asked? e.tag = none) : e.All Fits ↔ FitAll e.children := by
  rw [all_iff]
  simp [Fits, free, FitAll]

theorem fit_mk {tag text : String} {attributes : Attributes} {children : List Element}
    (free : asked? tag = none) : (⟨tag, attributes, text, children⟩ : Element).All Fits ↔ FitAll children :=
  fit_free free

theorem fit_shell {tag : String} (free : asked? tag = none) (attributes : Attributes) :
    (shell tag attributes).All Fits :=
  (fit_mk free).mpr fitAll_nil

theorem fit_ofText {tag : String} (free : asked? tag = none) (text : String) :
    (ofText tag text).All Fits :=
  (fit_mk free).mpr fitAll_nil

@[simp] theorem tag_setFont (e : Element) (font : Font) (kind : GlyphKind) :
    (e.setFont font kind).tag = e.tag := by
  unfold setFont
  split <;> rfl

@[simp] theorem children_setFont (e : Element) (font : Font) (kind : GlyphKind) :
    (e.setFont font kind).children = e.children := by
  unfold setFont
  split <;> rfl

end Element

open Element (asked? Fits FitAll fitAll_nil fitAll_cons fitAll_append fit_free fit_mk fit_shell
  fit_ofText)

theorem Drawing.fitAll_before (drawing : Drawing) (following : List Element) :
    FitAll (drawing.before following) ↔ FitAll (drawing.before []) ∧ FitAll following := by
  cases drawing with
  | elements list => simp [Drawing.before]
  | font _ => simp [Drawing.before]
  | wrapper attributes => simp [Drawing.before, Drawing.styled, fit_mk (show asked? "mstyle" = none by decide)]

/-! ## Glyphs -/

namespace Glyph

theorem kern_fits (width : String) : (kern width).All Fits := fit_shell (by decide) _

theorem letter_fits (font : Font) (text : String) : (letter font text).All Fits := by
  rw [fit_free (by simp [letter, Element.ofText, asked?])]
  simp [letter, Element.ofText]

theorem logo_fits (font : Font) : FitAll (logoStart font ++ logoEnd font) := by
  have row : asked? "mrow" = none := by decide
  have padded : asked? "mpadded" = none := by decide
  have style : asked? "mstyle" = none := by decide
  simp [logoStart, logoEnd, letter_fits, kern_fits, Element.holding, fit_mk row, fit_mk padded,
    fit_mk style]

theorem operator_fits (symbols : SymbolTable) (font : Font) (node : Node) :
    (operator symbols font node).All Fits := by
  have bare : asked? (operator symbols font node).tag = none ∧
      (operator symbols font node).children = [] := by
    unfold operator
    dsimp only
    repeat' split
    all_goals simp [Element.setText, Element.setAttribute, Element.shell, asked?]
  rw [fit_free bare.1, bare.2]
  exact fitAll_nil

theorem draw_fits (symbols : SymbolTable) (font : Font) (node : Node) :
    (draw symbols font node).All Fits := by
  have text (tag : String) (free : asked? tag = none) (text : String) (kind : GlyphKind) :
      (((Element.shell tag node.attributes).setText text).setFont font kind).All Fits := by
    rw [fit_free (by simpa [Element.setText, Element.shell] using free)]
    simp [Element.setText, Element.shell]
  have row (children : List Element) (fit : FitAll children) :
      ((Element.shell "mrow" node.attributes).appendChildren children).All Fits :=
    (fit_mk (show asked? "mrow" = none by decide)).mpr fit
  have logo := logo_fits font
  unfold draw
  dsimp only
  split
  · exact text "mn" (by decide) _ _
  split
  · exact operator_fits symbols font node
  split
  · exact text "mo" (by decide) _ _
  split
  · exact text "mtext" (by decide) _ _
  split
  · have bar : (Element.ofText "mtext" "\u29f8").All Fits := fit_ofText (by decide) _
    exact (fit_mk (by decide)).mpr (by simp [bar])
  split
  · rw [fit_free (by simp [Element.setText, Element.setAttributes, Element.shell, asked?])]
    simp [Element.setText, Element.setAttributes, Element.shell]
  split
  · apply row
    intro e mem
    obtain ⟨part, _, rfl⟩ := List.mem_map.mp mem
    exact fit_ofText (by decide) part
  split
  · exact row _ logo
  split
  · exact row _ (fitAll_append.mp logo).2
  split
  · exact (fit_mk (show asked? "mo" = none by decide)).mpr fitAll_nil
  · exact text "mi" (by decide) _ _

end Glyph

/-! ## Tables -/

namespace Table

theorem cell_fits (paired : Bool) (letters : List Char) (column : Nat) (items : List Item) :
    (cell paired letters column items).All Fits ↔
      ∀ item ∈ items, item.isDrawn = true → FitAll item.2 := by
  have lead : FitAll (if paired && column % 2 = 1 then [Element.ofTag "mi"] else []) := by
    have empty : (Element.ofTag "mi").All Fits := fit_shell (by decide) []
    split
    · simp [empty]
    · simp
  unfold cell
  rw [fit_mk (by decide), fitAll_append, and_iff_right lead]
  constructor
  · intro fit item mem drawn e inside
    exact fit e (List.mem_flatMap.mpr ⟨item, List.mem_filter.mpr ⟨mem, drawn⟩, inside⟩)
  · intro fit e inside
    obtain ⟨item, kept, inside⟩ := List.mem_flatMap.mp inside
    obtain ⟨mem, drawn⟩ := List.mem_filter.mp kept
    exact fit item mem drawn e inside

theorem row_fits (paired : Bool) (letters : List Char) (cells : List (List Item)) :
    (row paired letters cells).All Fits ↔
      ∀ items ∈ cells, ∀ item ∈ items, item.isDrawn = true → FitAll item.2 := by
  unfold row Element.holding
  rw [fit_mk (by decide)]
  constructor
  · intro fit items mem
    obtain ⟨column, inside, rfl⟩ := List.getElem_of_mem mem
    have here := fit _ (List.mem_mapIdx.mpr ⟨column, inside, rfl⟩)
    exact (cell_fits _ _ _ _).mp here
  · intro fit e mem
    obtain ⟨column, inside, rfl⟩ := List.mem_mapIdx.mp mem
    exact (cell_fits _ _ _ _).mpr (fit _ (List.getElem_mem inside))

/-- A trailing row shows nothing, so nothing is lost with it. -/
theorem trailing_fits {paired : Bool} {letters : List Char} {cells : List (List Item)}
    (trailing : isTrailing (row paired letters cells) = true) : (row paired letters cells).All Fits := by
  unfold isTrailing at trailing
  split at trailing
  · rename_i only alone
    have bare : only.children = [] := by
      simp only [Element.isEmpty, Bool.and_eq_true, List.isEmpty_iff] at trailing
      exact trailing.2
    have mem : only ∈ (row paired letters cells).children := by
      rw [alone]
      exact List.mem_singleton_self only
    obtain ⟨column, inside, rfl⟩ := List.mem_mapIdx.mp mem
    have fit : (cell paired letters column cells[column]).All Fits := by
      rw [fit_free (show asked? "mtd" = none by decide), bare]
      exact fitAll_nil
    rw [fit_free (show asked? "mtr" = none by decide), alone]
    simp [fit]
  · contradiction

theorem tag_fillIn (command : String) (alignment : List Char) (body : List Item) (table : Element) :
    (fillIn command alignment body table).tag = table.tag := by
  unfold fillIn
  dsimp only
  repeat' split
  all_goals rfl

theorem children_fillIn (command : String) (alignment : List Char) (body : List Item)
    (table : Element) :
    (fillIn command alignment body table).children =
      table.children ++ rows (isPaired command) (lettersFor command alignment) body := by
  unfold fillIn
  dsimp only
  repeat' split
  all_goals rfl

theorem rows_fit (paired : Bool) (letters : List Char) (body : List Item) :
    FitAll (rows paired letters body) ↔ ∀ item ∈ body, item.isDrawn = true → FitAll item.2 := by
  have all : FitAll ((rowsOf body).map (row paired letters)) ↔
      ∀ item ∈ body, item.isDrawn = true → FitAll item.2 := by
    simp only [FitAll, List.forall_mem_map, row_fits]
    constructor
    · intro fit item mem drawn
      have inCell : item.role ≠ .rowEnd ∧ item.role ≠ .cellEnd := by
        constructor
        · intro ends
          simp [Item.isDrawn, ends] at drawn
        · intro ends
          simp [Item.isDrawn, ends] at drawn
      obtain ⟨cells, inBody, items, inRow, here⟩ := mem_cells.mpr ⟨mem, inCell⟩
      exact fit cells inBody items inRow item here drawn
    · intro fit cells inBody items inRow item here
      exact fit item (mem_cells.mp ⟨cells, inBody, items, inRow, here⟩).1
  unfold rows
  dsimp only
  split
  · -- The row that is dropped fits by itself, so nothing about the others is lost.
    rename_i trailing
    obtain ⟨last, found, trailing⟩ := (Option.any_eq_true _ _).mp trailing
    obtain ⟨cells, _, rfl⟩ := List.mem_map.mp (List.mem_of_getLast? found)
    rw [← all]
    nth_rewrite 2 [← List.dropLast_append_getLast? _ found]
    simp [trailing_fits trailing]
  · exact all

end Table

end FormulaMarkup

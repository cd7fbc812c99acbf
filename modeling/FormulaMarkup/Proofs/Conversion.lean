import FormulaMarkup.Converter
import FormulaMarkup.Proofs.Bytes.Loading
import FormulaMarkup.Proofs.Bytes.Writing
import FormulaMarkup.Proofs.Render.Indices

/-!
Conversion from end to end with operations that can fail: slices of texts and lists, indices,
differences and remainders. The strict steps are put together as the plain ones are.
-/
namespace FormulaMarkup

/-- The text of the formula of a source, where no operation fails on the way. -/
def strictText? (symbols : SymbolTable) (namespaceUri : Option String) (display source : String)
    (width : Nat) : Option (Except FormulaError String) := do
  match ← Draw.source? symbols source with
  | .error e => return .error e
  | .ok row => return .ok (← Bytes.written? (formulaElement namespaceUri display row) width)

def Converter.convert? (converter : Converter) (source : String) (display : Display) :
    Option (Except FormulaError String) :=
  strictText? converter.symbols converter.settings.namespaceUri display.word source
    (converter.widthFor display)

def convert? (source namespaceUri display : String) (indent : Nat) : Option (Except FormulaError String) :=
  strictText? .known (if namespaceUri.isEmpty then none else some namespaceUri) display source indent

theorem strictText?_eq (symbols : SymbolTable) (namespaceUri : Option String) (display source : String)
    (width : Nat) :
    strictText? symbols namespaceUri display source width =
      some ((Draw.source symbols source).map fun row =>
        (formulaElement namespaceUri display row).written width) := by
  rw [strictText?, Draw.source?_eq]
  cases Draw.source symbols source with
  | error e => rfl
  | ok row =>
    dsimp only [Option.bind_eq_bind, Option.bind_some]
    rw [Bytes.written?_eq]
    rfl

/-- No operation fails, whatever a symbol file or a source holds: a file is loaded, and a source is
either refused or converted. The parse budget is never used up on the way. -/
theorem no_operation_fails :
    (∀ file, Bytes.symbolTable? file = some (SymbolTable.ofText file)) ∧
      (∀ e child : Element, e.pushChild? child = some (e.appendChild child, child)) ∧
      (∀ (converter : Converter) (source : String) (display : Display),
        converter.convert? source display = some (converter.convert source display)) ∧
      ∀ (source namespaceUri display : String) (indent : Nat),
        convert? source namespaceUri display indent = some (convert source namespaceUri display indent) := by
  refine ⟨Bytes.symbolTable?_eq, Element.pushChild?_eq, ?_, ?_⟩
  · intro converter source display
    rw [Converter.convert?, strictText?_eq, Converter.convert, Converter.toElement]
    cases Draw.source converter.symbols source <;> rfl
  · intro source namespaceUri display indent
    exact strictText?_eq .known _ display source indent

end FormulaMarkup

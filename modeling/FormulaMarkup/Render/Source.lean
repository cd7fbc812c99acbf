import FormulaMarkup.Formula.Parse
import FormulaMarkup.Render.Group

/-!
How sources are drawn. The text of a box may hold sources of its own, each of which is drawn by
itself and in the plain font. Such a source stands between dollar signs in the source around it, so
it is shorter.
-/
namespace FormulaMarkup.Draw

/-- The elements for a source, or what is wrong with it. -/
def source (symbols : SymbolTable) (text : String) : Except FormulaError (List Element) :=
  match Formula.parse symbols text with
  | .error e => .error e
  | .ok nodes =>
    let boxed (inner : String) : Option (List Element) :=
      if inner.length < text.length then (source symbols inner).toOption else none
    .ok (group ⟨symbols, .plain, false, boxed⟩ [] nodes)
termination_by text.length

end FormulaMarkup.Draw

import FormulaMarkup.Markup.Attributes

/-!
Markup elements. An element has a tag, attributes in the order in which their names were first set,
a text, and child elements that stand after the text.
-/
namespace FormulaMarkup

structure Element where
  tag : String
  attributes : Attributes := []
  text : String := ""
  children : List Element := []
  deriving Repr, Inhabited

namespace Element

mutual

def decEq : (x y : Element) → Decidable (x = y)
  | ⟨tag, attributes, text, children⟩, ⟨tag', attributes', text', children'⟩ =>
    match decEqAll children children' with
    | .isTrue same =>
      decidable_of_iff (tag = tag' ∧ attributes = attributes' ∧ text = text') (by simp [same])
    | .isFalse other => .isFalse (by simp [other])

def decEqAll : (xs ys : List Element) → Decidable (xs = ys)
  | [], [] => .isTrue rfl
  | [], _ :: _ => .isFalse (by simp)
  | _ :: _, [] => .isFalse (by simp)
  | x :: xs, y :: ys =>
    match decEq x y, decEqAll xs ys with
    | .isTrue same, .isTrue rest => .isTrue (by simp [same, rest])
    | .isFalse other, _ => .isFalse (by simp [other])
    | _, .isFalse other => .isFalse (by simp [other])

end

instance : DecidableEq Element := decEq

def ofTag (tag : String) : Element := ⟨tag, [], "", []⟩

def shell (tag : String) (attributes : Attributes) : Element := ⟨tag, attributes, "", []⟩

/-- An element that holds other elements and no text. -/
def holding (tag : String) (children : List Element) : Element := ⟨tag, [], "", children⟩

/-- An element that holds a text and nothing else. -/
def ofText (tag text : String) : Element := ⟨tag, [], text, []⟩

/-- The value of an attribute, if it has been set. -/
def attribute? (e : Element) (name : String) : Option String := e.attributes.get? name

/-- Sets an attribute; a name that is there keeps its place. -/
def setAttribute (e : Element) (name value : String) : Element :=
  { e with attributes := e.attributes.set name value }

def setAttributes (e : Element) (added : Attributes) : Element :=
  { e with attributes := e.attributes.setAll added }

def setText (e : Element) (text : String) : Element := { e with text := text }

def appendChild (e child : Element) : Element := { e with children := e.children ++ [child] }

def appendChildren (e : Element) (added : List Element) : Element :=
  { e with children := e.children ++ added }

def isEmpty (e : Element) : Bool := e.text.isEmpty && e.children.isEmpty

end Element

end FormulaMarkup

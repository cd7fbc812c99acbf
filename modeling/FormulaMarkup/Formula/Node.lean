import FormulaMarkup.Markup.Attributes

/-!
Syntax trees of formulas. A node carries the token that it stands for. A leaf has no children; a
group may have none either, and is not a leaf. The attributes of a node are sorted by name, so that
two nodes with the same attributes are equal.
-/
namespace FormulaMarkup

/-! ## Tokens that hold braces -/

namespace Word

def openBrace : String := "\x7b"

def closeBrace : String := "\x7d"

/-- The token of a node that is a group. -/
def braces : String := "\x7b\x7d"

/-- What the token that starts an environment begins with. -/
def environmentStart : String := "\\begin\x7b"

/-- What the token that ends an environment begins with. -/
def environmentEnd : String := "\\end\x7b"

/-- What the token of an operator that is given by its name begins with. -/
def operatorStart : String := "\\operatorname\x7b"

def begins (start text : String) : Bool := start.toList.isPrefixOf text.toList

/-- What stands between a beginning and a closing brace at the end. -/
def inside? (start text : String) : Option String :=
  let rest := text.toList.drop start.toList.length
  if begins start text && rest.getLast? == some '\x7d' then some (String.ofList rest.dropLast)
  else none

end Word

inductive Delimiter where
  /-- The one that follows `\left`, `\right` and the like. -/
  | single (text : String)
  /-- The two of a fraction, either of which may be missing. -/
  | pair (opening closing : Option String)
  deriving Repr, DecidableEq

/-- How a script came to stand above or below its base. -/
inductive Modifier where
  | limits | overbrace | underbrace
  deriving Repr, DecidableEq

structure Node where
  token : String
  /-- What the node holds; nothing at all for a leaf. -/
  children : Option (List Node) := none
  delimiter : Option Delimiter := none
  alignment : Option String := none
  /-- An argument that is kept as it is written. -/
  text : Option String := none
  attributes : Attributes := []
  modifier : Option Modifier := none
  deriving Repr, Inhabited

namespace Node

mutual

def decEq : (x y : Node) → Decidable (x = y)
  | ⟨token, none, delimiter, alignment, text, attributes, modifier⟩,
    ⟨token', none, delimiter', alignment', text', attributes', modifier'⟩ =>
    decidable_of_iff (token = token' ∧ delimiter = delimiter' ∧ alignment = alignment' ∧
      text = text' ∧ attributes = attributes' ∧ modifier = modifier') (by simp)
  | ⟨_, none, _, _, _, _, _⟩, ⟨_, some _, _, _, _, _, _⟩ => .isFalse (by simp)
  | ⟨_, some _, _, _, _, _, _⟩, ⟨_, none, _, _, _, _, _⟩ => .isFalse (by simp)
  | ⟨token, some children, delimiter, alignment, text, attributes, modifier⟩,
    ⟨token', some children', delimiter', alignment', text', attributes', modifier'⟩ =>
    match decEqAll children children' with
    | .isTrue same =>
      decidable_of_iff (token = token' ∧ delimiter = delimiter' ∧ alignment = alignment' ∧
        text = text' ∧ attributes = attributes' ∧ modifier = modifier') (by simp [same])
    | .isFalse other => .isFalse (by simp [other])

def decEqAll : (xs ys : List Node) → Decidable (xs = ys)
  | [], [] => .isTrue rfl
  | [], _ :: _ => .isFalse (by simp)
  | _ :: _, [] => .isFalse (by simp)
  | x :: xs, y :: ys =>
    match decEq x y, decEqAll xs ys with
    | .isTrue same, .isTrue rest => .isTrue (by simp [same, rest])
    | .isFalse other, _ => .isFalse (by simp [other])
    | _, .isFalse other => .isFalse (by simp [other])

end

instance : DecidableEq Node := decEq

def leaf (token : String) : Node := { token }

def withChildren (token : String) (children : List Node) : Node :=
  { token, children := some children }

def braces (children : List Node) : Node := withChildren Word.braces children

/-- Whether a node has no children, not even an empty list of them. -/
def isLeaf (node : Node) : Bool := node.children.isNone

def is (node : Node) (token : String) : Bool := node.token == token

/-- The children of a node, none for a leaf. -/
def childList (node : Node) : List Node := node.children.getD []

def attribute? (node : Node) (name : String) : Option String := node.attributes.get? name

def setAttribute (node : Node) (name value : String) : Node :=
  { node with attributes := node.attributes.insert name value }

/-- One node for a list of nodes: the node itself if there is just one, else a group. -/
def collapse : List Node → Node
  | [node] => node
  | nodes => braces nodes

/-- The tokens of a list of nodes, one behind the other. -/
def tokensOf (nodes : List Node) : String := String.join (nodes.map token)

/-- The text of an argument: its token, or the tokens that a group holds. -/
def flatText (node : Node) : String :=
  if node.is Word.braces then tokensOf node.childList else node.token

end Node

end FormulaMarkup

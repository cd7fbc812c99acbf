import FormulaMarkup.Formula.Error
import FormulaMarkup.Formula.Node

/-!
Scripts. A node with token `_` or `^` holds a base and a script, one with token `_^` a base, a
subscript and a superscript. A second script joins the node of the first one. Primes are
superscripts: up to four strokes share a leaf, and an exponent may follow them.
-/
namespace FormulaMarkup.Script

def both : String := "_^"

def primes : List String := ["\\prime", "\\dprime", "\\trprime", "\\qprime"]

def isPrime (token : String) : Bool := primes.contains token

def nextPrime? (token : String) : Option String := (primes.zip (primes.drop 1)).lookup token

def stroke : Node := .leaf "\\prime"

/-- The superscript of a node, if it has one. -/
def superscript? (node : Node) : Option Node :=
  match node.childList with
  | [_, script] => if node.is "^" then some script else none
  | [_, _, script] => if node.is both then some script else none
  | _ => none

/-- What keeps a node from taking a script of a kind. An exponent may follow primes. -/
def conflict? (kind : ScriptKind) (node : Node) : Option Cause :=
  match kind with
  | .sub => if node.is "_" || node.is both then some (.doubleScript .sub) else none
  | .sup =>
    if (superscript? node).any (! isPrime ·.token) then some (.doubleScript .sup) else none

/-- A leaf with a name, as `\sum` and `\lim` are. -/
def isNamedOperator (node : Node) : Bool :=
  node.isLeaf && Word.begins "\\" node.token && 2 < node.token.utf8ByteSize

/-- Scripts on a brace stand above or below it. -/
def braceModifier? (base : Node) : Option Modifier :=
  if base.is "\\overbrace" then some .overbrace
  else if base.is "\\underbrace" then some .underbrace
  else none

/-- Puts a script on a node that can take it: into its node of scripts if it has one that goes
together with the script, else into a new one. -/
def attach (kind : ScriptKind) (modifier : Option Modifier) (base script : Node) : Node :=
  let joined (token : String) (children : List Node) : Node :=
    { Node.withChildren token children with modifier := base.modifier }
  let new : Node :=
    { Node.withChildren kind.token [base, script] with
      modifier := (braceModifier? base).or modifier }
  match kind, base.childList with
  | .sub, [inner, sup] => if base.is "^" then joined both [inner, script, sup] else new
  | .sup, [inner, old] =>
    if base.is "_" then joined both [inner, old, script]
    else if base.is "^" && isPrime old.token then joined "^" [inner, .braces [old, script]]
    else new
  | .sup, [inner, sub, old] =>
    if base.is both && isPrime old.token then joined both [inner, sub, .braces [old, script]]
    else new
  | _, _ => new

def lengthen (script : Node) : Node :=
  match script.children with
  | none =>
    match nextPrime? script.token with
    | some next => { script with token := next }
    | none => .braces [script, stroke]
  | some children =>
    if script.is Word.braces then
      let lengthened := (children.getLast?.filter Node.isLeaf).bind fun last =>
        (nextPrime? last.token).map fun next => children.dropLast ++ [{ last with token := next }]
      { script with children := some (lengthened.getD (children ++ [stroke])) }
    else .braces [script, stroke]

/-- Adds a stroke to a node: to its superscript if it has one. -/
def addPrime (node : Node) : Node :=
  let new := Node.withChildren "^" [node, stroke]
  match node.childList with
  | [base, script] =>
    if node.is "^" then { node with children := some [base, lengthen script] }
    else if node.is "_" then { node with token := both, children := some [base, script, stroke] }
    else new
  | [base, sub, sup] =>
    if node.is both then { node with children := some [base, sub, lengthen sup] } else new
  | _ => new

end FormulaMarkup.Script

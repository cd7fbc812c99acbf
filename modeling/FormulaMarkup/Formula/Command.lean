import FormulaMarkup.Formula.Alignment
import FormulaMarkup.Formula.Reader
import FormulaMarkup.Formula.Script
import FormulaMarkup.Formula.Shape
import FormulaMarkup.Formula.Skew
import FormulaMarkup.Symbol.Table

/-!
Readers of commands. The nodes of the sequence that is being read are a stack, the newest first. A
token puts nodes on the stack; a script takes its base from there, and an infix fraction takes all
of it. Some commands read all that follows up to the end of the sequence, and finish it.
-/
namespace FormulaMarkup

/-- The sequence after a token: its nodes, the newest first, and whether it is finished. -/
structure Progress where
  stack : List Node
  finished : Bool := false
  deriving Repr

namespace Reader

/-! ## Commands with a node of their own -/

/-- A node made of one argument, and of a label in brackets before it if there is one. -/
def bracketed (nested : Nested) (terminator : Option String) (labelled : List Node → Node → Node)
    (bare : Node → Node) : Reader Node := do
  if ← nextIs "[" then
    let _ ← next?
    let label ← group nested "]"
    return labelled label (← argument nested terminator)
  else return bare (← argument nested terminator)

def labelledArrow (nested : Nested) (terminator : Option String) (token : String) : Reader Node :=
  bracketed nested terminator (fun label base => .withChildren token [.braces label, base])
    fun base => .withChildren token [base]

def space (nested : Nested) (terminator : Option String) (token : String) : Reader Node := do
  let width := (← argument nested terminator).flatText
  if width.isEmpty then refuse (← lastSpan) (.invalidWidth width)
  else return (Node.leaf token).setAttribute "width" width

/-- A root; empty brackets give it no index. -/
def squareRoot (nested : Nested) (terminator : Option String) : Reader Node :=
  bracketed nested terminator
    (fun index radicand =>
      if index.isEmpty then .withChildren "\\sqrt" [radicand]
      else .withChildren "\\root" [radicand, Node.collapse index])
    fun radicand => .withChildren "\\sqrt" [radicand]

def root (nested : Nested) (terminator : Option String) : Reader Node := do
  let index ← group nested "\\of"
  let radicand ← argument nested terminator
  return .withChildren "\\root" [radicand, Node.collapse index]

/-- The command for a style of a fraction that is given by its number. -/
def styleCommand? : String → Option String
  | "0" => some "\\displaystyle"
  | "1" => some "\\textstyle"
  | "2" => some "\\scriptstyle"
  | "3" => some "\\scriptscriptstyle"
  | _ => none

/-- A fraction with its delimiters, the thickness of its bar, and its style. -/
def generalFraction (nested : Nested) (terminator : Option String) : Reader Node := do
  let opening ← fence? nested terminator
  let closing ← fence? nested terminator
  let thickness := (← argument nested terminator).flatText
  let style := (← argument nested terminator).flatText
  let parts ← arguments nested terminator 2
  let fraction : Node :=
    { Node.withChildren "\\genfrac" parts with
      delimiter := if opening.isSome || closing.isSome then some (.pair opening closing) else none }
  let fraction :=
    if thickness.isEmpty then fraction else fraction.setAttribute "linethickness" thickness
  return match styleCommand? style with
    | some switch => .braces [.leaf switch, fraction]
    | none => fraction

/-- The token of the scripts in a group that holds nothing else, and the scripts. -/
def sideParts (node : Node) : String × List Node :=
  match node.children with
  | some [only] =>
    if node.is Word.braces && (only.is "_" || only.is "^" || only.is Script.both) then
      (only.token, only.childList.drop 1)
    else (Word.braces, [])
  | _ => (Word.braces, [])

/-- An operator with scripts on its left and on its right. -/
def sideScripts (nested : Nested) (terminator : Option String) : Reader Node := do
  match ← arguments nested terminator 3 with
  | left :: right :: operator :: _ =>
    let operator : Node :=
      { token := operator.token, children := operator.children,
        attributes := [("movablelimits", "false")] }
    let (leftToken, leftScripts) := sideParts left
    let (rightToken, rightScripts) := sideParts right
    let phantom := Node.withChildren "\\vphantom" [operator]
    return .withChildren "\\sideset" [
      .withChildren leftToken (phantom :: leftScripts),
      .withChildren rightToken (operator :: rightScripts)]
  | _ => refuse (← lastSpan) .missingArgument

def skew (nested : Nested) (terminator : Option String) (span : Span) : Reader Node := do
  match ← arguments nested terminator 2 with
  | width :: target :: _ =>
    let text := width.flatText
    match (Skew.integer? text).bind Skew.width? with
    | some em => return (Node.withChildren "\\skew" [target]).setAttribute "width" em
    | none => refuse span (.invalidWidth text)
  | _ => refuse (← lastSpan) .missingArgument

/-- An environment, from behind the token that starts it. -/
def environment (nested : Nested) (span : Span) (header : String) : Reader Node := do
  let name := (Word.inside? Word.environmentStart header).getD ""
  let ending := Word.environmentEnd ++ name ++ Word.closeBrace
  let nodes ← optional nested (some ending)
  if nodes.getLast?.any (·.is ending) then
    match Alignment.take name nodes.dropLast with
    | .ok (alignment, body) => return { Node.withChildren ("\\" ++ name) body with alignment }
    | .error text => refuse span (.invalidAlignment text)
  else refuse span (.missingEnd name)

/-- A pair of stretching delimiters with what stands between them. The closing one stays the last
child. -/
def leftRight (nested : Nested) (span : Span) : Reader Node := do
  match ← next? with
  | none => refuse span (.unbalancedDelimiter .left)
  | some delimiter =>
    let children ← optional nested (some "\\right")
    if children.getLast?.any (·.is "\\right") then
      return { Node.withChildren "\\left" children with
        delimiter := some (.single delimiter.text) }
    else refuse span (.unbalancedDelimiter .left)

/-! ## Commands that change the stack -/

/-- A script on the node before it; on an empty group if there is none. -/
def script (nested : Nested) (terminator : Option String) (kind : ScriptKind) (span : Span)
    (stack : List Node) : Reader Progress := do
  let base := stack.head?.getD (.braces [])
  let below := stack.tail
  match Script.conflict? kind base with
  | some cause => refuse span cause
  | none =>
    if base.is "\\limits" && base.isLeaf then
      match below with
      | operator :: deeper =>
        if Script.isNamedOperator operator then
          let argument ← argument nested terminator
          return ⟨Script.attach kind (some .limits) operator argument :: deeper, false⟩
        else refuse span .limitsRequireOperator
      | [] => refuse span .limitsRequireOperator
    else
      let argument ← argument nested terminator
      return ⟨Script.attach kind none base argument :: below, false⟩

/-- The command for the negation of a relation, if there is one. -/
def negated? (symbols : SymbolTable) : String → Option String
  | "=" => some "\\ne"
  | "<" => some "\\nless"
  | ">" => some "\\ngtr"
  | token =>
    match token.toList with
    | '\\' :: name =>
      let negated := String.ofList ('\\' :: 'n' :: name)
      if symbols.contains negated then some negated else none
    | _ => none

/-- A negated relation, as one leaf if there is one for it. -/
def negation (symbols : SymbolTable) (nested : Nested) (terminator : Option String)
    (stack : List Node) : Reader Progress := do
  let target ← argument nested terminator
  match if target.isLeaf then negated? symbols target.token else none with
  | some negated => return ⟨.leaf negated :: stack, false⟩
  | none => return ⟨target :: .leaf "\\not" :: stack, false⟩

def color (nested : Nested) (terminator : Option String) (token : String) (stack : List Node) :
    Reader Progress := do
  let value ← nested.raw terminator
  let (nodes, marker) ← remainder nested terminator
  let node := (Node.withChildren token nodes).setAttribute "mathcolor" value
  return ⟨marker.toList ++ node :: stack, true⟩

/-- A table body, in braces or up to the end of the sequence. -/
def table (nested : Nested) (terminator : Option String) (token : String) (stack : List Node) :
    Reader Progress := do
  if ← nextIs Word.openBrace then
    let _ ← next?
    return ⟨.withChildren token (← group nested Word.closeBrace) :: stack, false⟩
  else
    let (nodes, marker) ← remainder nested terminator
    let body := match nodes with
      | [only] => if only.is Word.braces then only.childList else nodes
      | _ => nodes
    return ⟨marker.toList ++ .withChildren token body :: stack, true⟩

def infixFences (nested : Nested) (terminator : Option String) (fraction : InfixFraction) :
    Reader (Option Delimiter) := do
  if fraction.readsFences then
    let opening ← fence? nested terminator
    let closing ← fence? nested terminator
    return some (.pair opening closing)
  else
    return fraction.fences.map fun (opening, closing) => .pair (some opening) (some closing)

/-- The attributes of an infix fraction, which say how thick its bar is. -/
def infixBar (nested : Nested) (terminator : Option String) (fraction : InfixFraction) :
    Reader Attributes := do
  match fraction.bar with
  | .natural => return []
  | .zero => return [("linethickness", "0")]
  | .argument => return [("linethickness", (← argument nested terminator).flatText)]

/-- A fraction of what stands before it and what follows. -/
def infixFraction (nested : Nested) (terminator : Option String) (fraction : InfixFraction)
    (span : Span) (stack : List Node) : Reader Progress := do
  let delimiter ← infixFences nested terminator fraction
  let attributes ← infixBar nested terminator fraction
  let (under, marker) ← remainder nested terminator
  if under.isEmpty && fraction.fences.isNone then refuse span .missingDenominator
  else if stack.isEmpty && fraction.fences.isNone then refuse span .missingNumerator
  else
    let parts := [Node.collapse stack.reverse, Node.collapse under]
    let node := { Node.withChildren "\\frac" parts with delimiter, attributes }
    return ⟨marker.toList ++ [node], true⟩

/-! ## All commands -/

/-- The shape of a command. A command `\math…` that is no symbol sets a font and takes one node. -/
def shape? (symbols : SymbolTable) (token : String) : Option Shape :=
  match Shape.of? token with
  | some shape => some shape
  | none => if Word.begins "\\math" token && !symbols.contains token then some (.nodes 1) else none

def command (symbols : SymbolTable) (nested : Nested) (terminator : Option String) (token : Token)
    (stack : List Node) : Reader Progress := do
  let push (node : Node) : Progress := ⟨node :: stack, false⟩
  match shape? symbols token.text with
  | none => return push (.leaf token.text)
  | some (.nodes count) =>
    return push (.withChildren token.text (← arguments nested terminator count))
  | some .reversed =>
    return push (.withChildren token.text (← arguments nested terminator 2).reverse)
  | some .negation => negation symbols nested terminator stack
  | some .labelledArrow => return push (← labelledArrow nested terminator token.text)
  | some .space => return push (← space nested terminator token.text)
  | some .color => color nested terminator token.text stack
  | some .style =>
    let value ← nested.raw terminator
    return push ((← argument nested terminator).setAttribute "style" value)
  | some .rawText =>
    return push { Node.leaf token.text with text := some (← nested.raw terminator) }
  | some .link =>
    let target ← nested.raw terminator
    let nodes ← arguments nested terminator 1
    return push ((Node.withChildren token.text nodes).setAttribute "href" target)
  | some (.infixFraction fraction) => infixFraction nested terminator fraction token.span stack
  | some .squareRoot => return push (← squareRoot nested terminator)
  | some .root => return push (← root nested terminator)
  | some .table => table nested terminator token.text stack
  | some .generalFraction => return push (← generalFraction nested terminator)
  | some .sideScripts => return push (← sideScripts nested terminator)
  | some .skew => return push (← skew nested terminator token.span)

def token (symbols : SymbolTable) (nested : Nested) (terminator : Option String) (token : Token)
    (stack : List Node) : Reader Progress := do
  let push (node : Node) : Progress := ⟨node :: stack, false⟩
  let outside := terminator != some "\\right"
  if token.text == "\\right" && outside then refuse token.span (.unbalancedDelimiter .right)
  else if token.text == "\\middle" && outside then refuse token.span (.unbalancedDelimiter .middle)
  else if Word.begins Word.environmentStart token.text then
    return push (← environment nested token.span token.text)
  else if token.text == "\\left" then return push (← leftRight nested token.span)
  else if token.text == Word.openBrace then
    return push (.braces (← group nested Word.closeBrace))
  else if token.text == "_" then script nested terminator .sub token.span stack
  else if token.text == "^" then script nested terminator .sup token.span stack
  else if token.text == "'" then
    return ⟨Script.addPrime (stack.head?.getD (.braces [])) :: stack.tail, false⟩
  else command symbols nested terminator token stack

end Reader

end FormulaMarkup

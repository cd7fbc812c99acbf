import FormulaMarkup.Formula.Command

/-!
Parsing. A sequence is read token by token up to the token that ends it, the end of the source, or
its limit. A construct that takes all that follows, such as `\over`, can run up to the end of the
sequence around it from within an argument; the token that ends that sequence is then owed to it.
-/
namespace FormulaMarkup

namespace Reader

/-- Ends a sequence: what it returns, and what is wrong with it. A sequence with a limit has to be
full, and does not keep the token that ends the sequence around it. -/
def close (terminator : Option String) (limit : Limit) (consumed : Bool) (stack : List Node) :
    Reader (List Node) := do
  if !consumed then refuse (← nextSpan) .noTokens
  else
    match limit with
    | .unbounded => return stack.reverse
    | .nodes count =>
      let marker? := stack.head?.filter fun node => node.isLeaf && some node.token == terminator
      match marker? with
      | some marker =>
        if count < stack.length then
          owe marker
          return stack.tail.reverse
        else refuse (← lastSpan) .missingArgument
      | none =>
        if stack.length < count then refuse (← lastSpan) .missingArgument
        else return stack.reverse

/-- The leaf for the token that ends a sequence. A `\right` takes its delimiter along. -/
def marker (text : String) : Reader Node := do
  if text == "\\right" then
    return { Node.leaf text with delimiter := (← next?).map fun token => .single token.text }
  else return .leaf text

/-- One turn of reading a sequence: it ends, or a token puts nodes on the stack and reading goes
on. -/
def turn (terminator : Option String) (limit : Limit) (step : Token → List Node → Reader Progress)
    (again : List Node → Reader (List Node)) (consumed : Bool) (stack : List Node) :
    Reader (List Node) := do
  match ← takePending with
  | some marker =>
    if limit = .unbounded then close terminator limit true (marker :: stack)
    else refuse (← lastSpan) .missingArgument
  | none =>
    match ← next? with
    | none => close terminator limit consumed stack
    | some next =>
      if some next.text = terminator then
        if limit = .unbounded then close terminator limit true ((← marker next.text) :: stack)
        else refuse next.span .missingArgument
      else
        let progress ← step next stack
        if progress.finished || limit.reachedBy progress.stack.length then
          close terminator limit true progress.stack
        else again progress.stack

/-- Reads a sequence. Each turn but the last takes a token, and so does whatever reads a nested
sequence before it does that; the budget counts both. -/
def sequence (symbols : SymbolTable) (terminator : Option String) (limit : Limit) :
    Nat → Bool → List Node → Reader (List Node)
  | 0, _, _ => throw .exhausted
  | budget + 1, consumed, stack =>
    let nested : Nested :=
      { raw := rawArgument
        sequence := fun terminator limit => sequence symbols terminator limit budget false [] }
    turn terminator limit (token symbols nested terminator)
      (sequence symbols terminator limit budget true) consumed stack

end Reader

namespace Formula

/-- Reads all tokens of a source that ends at a given byte. -/
def ofTokens? (symbols : SymbolTable) (tokens : List Token) (stop : Nat) :
    Except Failure (List Node) :=
  let cursor : Cursor := { tokens, last := ⟨0, 0⟩, stop }
  if tokens.isEmpty then .ok []
  else ((Reader.sequence symbols none .unbounded (tokens.length + 1) false []).run cursor).map (·.1)

/-- The nodes of a source, or what is wrong with it. -/
def parse (symbols : SymbolTable) (source : String) : Except FormulaError (List Node) :=
  let stop := source.utf8ByteSize
  match ofTokens? symbols (Source.tokens symbols source) stop with
  | .ok nodes => .ok nodes
  | .error (.refused e) => .error e
  | .error .exhausted => .error ⟨⟨stop, stop⟩, .noTokens⟩

end Formula

end FormulaMarkup

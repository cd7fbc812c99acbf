import FormulaMarkup.Formula.Error
import FormulaMarkup.Formula.Node

/-!
Readers of nodes. A reader takes tokens from a cursor, which only goes forward, and gives a value or
fails. Readers of arguments are written over the reader of a sequence, which is handed to them, so
that none of them is recursive.
-/
namespace FormulaMarkup

/-- How far the tokens of a source have been read. -/
structure Cursor where
  tokens : List Token
  /-- The place of the token that was read last. -/
  last : Span
  stop : Nat
  /-- A token that ended an argument and is owed to the sequence around it. -/
  pending : Option Node := none
  deriving Repr, DecidableEq

inductive Failure where
  | refused (e : FormulaError)
  | exhausted
  deriving Repr, DecidableEq

abbrev Reader := StateT Cursor (Except Failure)

inductive Limit where
  | unbounded
  | nodes (count : Nat)
  deriving Repr, DecidableEq

namespace Limit

/-- Whether a sequence of a given length is full. -/
def reachedBy (length : Nat) : Limit → Bool
  | unbounded => false
  | nodes count => count ≤ length

end Limit

namespace Reader

/-! ## Tokens -/

def refuse {α : Type} (span : Span) (cause : Cause) : Reader α :=
  throw (.refused ⟨span, cause⟩)

def next? : Reader (Option Token) := fun cursor =>
  match cursor.tokens with
  | [] => .ok (none, cursor)
  | token :: rest => .ok (some token, { cursor with tokens := rest, last := token.span })

def nextIs (text : String) : Reader Bool := do
  return (← get).tokens.head?.any (·.text == text)

/-- The place of the next token; the end of the source when there is none. -/
def nextSpan : Reader Span := do
  let cursor ← get
  match cursor.tokens with
  | [] => return ⟨cursor.stop, cursor.stop⟩
  | token :: _ => return token.span

/-- The place of the token that was read last. -/
def lastSpan : Reader Span := return (← get).last

/-- Takes the token that is owed to this sequence. -/
def takePending : Reader (Option Node) := fun cursor =>
  .ok (cursor.pending, { cursor with pending := none })

/-- Owes a token to the sequence around this one. -/
def owe (marker : Node) : Reader Unit := modify ({ · with pending := some marker })

/-! ## Arguments -/

/-- What the readers of arguments are handed: the reader of a token whatever it is, and the reader of
a sequence. Both know the token that ends the sequence around. A sequence without a limit that ends
at its token has a leaf for it at its end. -/
structure Nested where
  raw : Option String → Reader String
  sequence : Option String → Limit → Reader (List Node)

/-- The text of the next token, whatever it is. -/
def rawArgument (terminator : Option String) : Reader String := do
  let cursor ← get
  let closed := cursor.tokens.head?.any fun token => some token.text == terminator
  if cursor.pending.isSome || closed then refuse (← nextSpan) .missingArgument
  else
    match ← next? with
    | some token => return token.text
    | none => refuse (← nextSpan) .noTokens

/-- A sequence without a limit; there may be nothing left for it. -/
def optional (nested : Nested) (terminator : Option String) : Reader (List Node) := do
  let cursor ← get
  if cursor.pending.isNone && cursor.tokens.isEmpty then return []
  else nested.sequence terminator .unbounded

def group (nested : Nested) (closing : String) : Reader (List Node) := do
  let nodes ← optional nested (some closing)
  if nodes.getLast?.any (·.is closing) then return nodes.dropLast else return nodes

/-- All that follows up to the end of the sequence around, and the leaf of the token that ends it. -/
def remainder (nested : Nested) (terminator : Option String) :
    Reader (List Node × Option Node) := do
  let nodes ← optional nested terminator
  match terminator, nodes.getLast? with
  | some closing, some last =>
    if last.is closing then return (nodes.dropLast, some last) else return (nodes, none)
  | _, _ => return (nodes, none)

def arguments (nested : Nested) (terminator : Option String) (count : Nat) : Reader (List Node) :=
  nested.sequence terminator (.nodes count)

def argument (nested : Nested) (terminator : Option String) : Reader Node := do
  return Node.collapse (← arguments nested terminator 1)

/-- The texts of all tokens before the next closing brace, which is taken too. -/
def bracedText : Reader String := fun cursor =>
  let inner := cursor.tokens.takeWhile (·.text != Word.closeBrace)
  let taken := cursor.tokens.take (inner.length + 1)
  .ok (String.join (inner.map (·.text)),
    { cursor with
      tokens := cursor.tokens.drop (inner.length + 1)
      last := (taken.getLast?.map (·.span)).getD cursor.last })

/-- A delimiter, which is a token or the text in braces; a point or no text is none. -/
def fence? (nested : Nested) (terminator : Option String) : Reader (Option String) := do
  let raw ← nested.raw terminator
  let text ← if raw == Word.openBrace then bracedText else pure raw
  return if text.isEmpty || text == "." then none else some text

end Reader

end FormulaMarkup

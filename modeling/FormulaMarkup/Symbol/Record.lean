/-!
Records of a symbol file. A symbol file is a text of lines; a line gives a code point and the names
that stand for it, in fields separated by `^`. The first field is the code point in hexadecimal, the
next three are names, and the last one may hold cross references such as `= \cmd` or `# \cmd`, whose
commands are names as well. Comment lines and lines of another shape say nothing.
-/
namespace FormulaMarkup

/-- A code point with the names that stand for it, in the order in which they are listed. -/
structure SymbolRecord where
  code : Nat
  names : List String
  deriving Repr, DecidableEq

namespace SymbolRecord

/-- The lines of a text. A line ends with a line feed, which may follow a carriage return; a last
line without a line feed counts when it is not empty, and keeps a carriage return at its end. -/
def linesOf (text : List Char) : List (List Char) := go [] text
where
  go (line : List Char) : List Char → List (List Char)
    | [] => if line.isEmpty then [] else [line.reverse]
    | '\n' :: rest => endOfLine line :: go [] rest
    | c :: rest => go (c :: line) rest
  endOfLine : List Char → List Char
    | '\r' :: line => line.reverse
    | line => line.reverse

def fieldsOf : List Char → List (List Char)
  | [] => [[]]
  | '^' :: rest => [] :: fieldsOf rest
  | c :: rest =>
    match fieldsOf rest with
    | [] => [[c]]
    | field :: fields => (c :: field) :: fields

/-- A line without the spaces at its two ends. -/
def trimSpaces (line : List Char) : List Char :=
  ((line.dropWhile (· = ' ')).reverse.dropWhile (· = ' ')).reverse

def hexDigit? (c : Char) : Option Nat :=
  if '0' ≤ c ∧ c ≤ '9' then some (c.toNat - '0'.toNat)
  else if 'a' ≤ c ∧ c ≤ 'f' then some (c.toNat - 'a'.toNat + 10)
  else if 'A' ≤ c ∧ c ≤ 'F' then some (c.toNat - 'A'.toNat + 10)
  else none

/-- A number in hexadecimal, below 2^32. One plus sign may stand before the digits. -/
def code? (field : List Char) : Option Nat :=
  match (match field with | '+' :: digits => digits | digits => digits) with
  | [] => none
  | digits => do
    let values ← digits.mapM hexDigit?
    let code := values.foldl (fun n d => 16 * n + d) 0
    if code < Nat.pow 2 32 then some code else none

def isUnicodeSpace (c : Char) : Bool :=
  let n := c.toNat
  (9 ≤ n ∧ n ≤ 13) ∨ n = 0x20 ∨ n = 0x85 ∨ n = 0xA0 ∨ n = 0x1680 ∨ (0x2000 ≤ n ∧ n ≤ 0x200A) ∨
    n = 0x2028 ∨ n = 0x2029 ∨ n = 0x202F ∨ n = 0x205F ∨ n = 0x3000

/-- The command that a cross reference names, given the text behind its marker: it starts with a
backslash behind any white space and goes on to the next comma, caret or space. -/
def reference? (behind : List Char) : Option (List Char) :=
  match behind.dropWhile isUnicodeSpace with
  | '\\' :: rest =>
    match rest.takeWhile (fun c => c ≠ ',' ∧ c ≠ '^' ∧ c ≠ ' ') with
    | [] => none
    | name => some ('\\' :: name)
  | _ => none

/-- The commands that directly follow the markers `=` and `#`, from left to right. -/
def crossReferences : List Char → List (List Char)
  | [] => []
  | c :: rest =>
    if c = '=' ∨ c = '#' then (reference? rest).toList ++ crossReferences rest
    else crossReferences rest

/-- The record that a line gives, if it gives one. -/
def ofLine? (line : List Char) : Option SymbolRecord :=
  if line.head? = some '#' then none
  else
    match fieldsOf (trimSpaces line) with
    | code :: first :: second :: third :: further =>
      match further.getLast? with
      | none => none
      | some comments => do
        let code ← code? code
        let names := [first, second, third].filter (! ·.isEmpty) ++ crossReferences comments
        some ⟨code, names.map String.ofList⟩
    | _ => none

def ofText (text : String) : List SymbolRecord :=
  (linesOf text.toList).filterMap ofLine?

end SymbolRecord

end FormulaMarkup

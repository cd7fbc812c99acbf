import FormulaMarkup.Toml.Reader
import FormulaMarkup.Toml.Value

/-!
Scalars of TOML: strings, numbers, dates and times.
-/
namespace FormulaMarkup.Toml

def digitValue? (c : Char) : Option Nat :=
  if c.isDigit then some (c.toNat - '0'.toNat)
  else if 'a' ≤ c ∧ c ≤ 'f' then some (c.toNat - 'a'.toNat + 10)
  else if 'A' ≤ c ∧ c ≤ 'F' then some (c.toNat - 'A'.toNat + 10)
  else none

/-- The number that digits in a base stand for, at least one of them. -/
def natural? (base : Nat) (digits : List Char) : Option Nat := do
  guard !digits.isEmpty
  let values ← digits.mapM digitValue?
  guard (values.all (· < base))
  return values.foldl (fun n d => base * n + d) 0

namespace TextReader

/-! ## Strings -/

/-- The character of an escape with a number of hexadecimal digits. -/
def escapedCode (count : Nat) : TextReader Char := do
  let cs ← get
  let digits := cs.take count
  match natural? 16 digits with
  | none => failure
  | some code =>
    if digits.length = count then
      set (cs.drop count)
      if h : code.isValidChar then return Char.ofNatAux code h else failure
    else failure

def escaped : TextReader Char := do
  match ← character with
  | 'b' => return '\x08'
  | 't' => return '\t'
  | 'n' => return '\n'
  | 'f' => return '\x0c'
  | 'r' => return '\r'
  | 'e' => return '\x1b'
  | '"' => return '"'
  | '\\' => return '\\'
  | 'x' => escapedCode 2
  | 'u' => escapedCode 4
  | 'U' => escapedCode 8
  | _ => failure

/-- A string on one line, behind its opening quote. -/
def singleLine (quote : Char) (escapes : Bool) : TextReader String :=
  loop (fun reversed => do
    let c ← character
    if c = quote then return .inr (String.ofList reversed.reverse)
    else if escapes && c == '\\' then return .inl ((← escaped) :: reversed)
    else if isControl c then failure
    else return .inl (c :: reversed)) []

/-- Skips an escaped line end with all blanks and line ends behind it, if there is one behind a
backslash. -/
def escapedLineEnd : TextReader Bool := do
  let cs ← get
  blanks
  if ← lineEnd then
    loop (fun () => do
      blanks
      return if ← lineEnd then .inl () else .inr ()) ()
    return true
  else
    set cs
    return false

/-- A string on several lines, behind its opening quotes. A line end right behind those is left out;
all others are kept as they are written. Up to two quotes may stand at the end of the string. -/
def multiLine (quote : Char) (escapes : Bool) : TextReader String := do
  let _ ← lineEnd
  let quotes (count : Nat) : String := String.ofList (List.replicate count quote)
  loop (fun reversed => do
    let ended (count : Nat) : List Char ⊕ String :=
      .inr (String.ofList (List.replicate count quote ++ reversed).reverse)
    if ← accept (quotes 5) then return ended 2
    else if ← accept (quotes 4) then return ended 1
    else if ← accept (quotes 3) then return ended 0
    else
      match ← lineEnd? with
      | some written => return .inl (written.toList.reverse ++ reversed)
      | none =>
        let c ← character
        if escapes && c == '\\' then
          if ← escapedLineEnd then return .inl reversed
          else return .inl ((← escaped) :: reversed)
        else if isControl c then failure
        else return .inl (c :: reversed)) []

/-- A string of any kind, if there is one here. -/
def string? : TextReader (Option String) := do
  if ← accept "\"\"\"" then return some (← multiLine '"' true)
  else if ← accept "'''" then return some (← multiLine '\'' false)
  else if ← accept "\"" then return some (← singleLine '"' true)
  else if ← accept "'" then return some (← singleLine '\'' false)
  else return none

end TextReader

/-! ## Numbers -/

namespace Scalar

/-- Digits with single underscores between them, which are left out. -/
def grouped? (cs : List Char) : Option (List Char) :=
  let groups := cs.splitOn '_'
  if groups.any List.isEmpty then none else some groups.flatten

/-- A whole number in decimal, which starts with a zero only if it is zero. -/
def decimal? (cs : List Char) : Option Nat := do
  let digits ← grouped? cs
  guard (digits.length = 1 || digits.head? != some '0')
  natural? 10 digits

def inRange (n : Int) : Bool := -Int.ofNat (Nat.pow 2 63) ≤ n && n < Int.ofNat (Nat.pow 2 64)

/-- An integer: in decimal with or without a sign, or without a sign in another base. -/
def integer? (cs : List Char) : Option Int :=
  match cs with
  | '0' :: 'x' :: digits => (grouped? digits).bind (natural? 16) |>.map Int.ofNat
  | '0' :: 'o' :: digits => (grouped? digits).bind (natural? 8) |>.map Int.ofNat
  | '0' :: 'b' :: digits => (grouped? digits).bind (natural? 2) |>.map Int.ofNat
  | '+' :: digits => (decimal? digits).map Int.ofNat
  | '-' :: digits => (decimal? digits).map fun n => -(Int.ofNat n)
  | digits => (decimal? digits).map Int.ofNat

def unsigned : List Char → List Char
  | '+' :: cs => cs
  | '-' :: cs => cs
  | cs => cs

/-- The digits of a whole number in decimal without zeros at their start. -/
def significant (digits : List Char) : List Char := digits.dropWhile (· = '0')

/-- The least number that is too great for a binary fraction of 64 bits: it lies halfway between the
greatest one and the power of two that would be the next. -/
def tooGreat : Nat := Nat.pow 2 1024 - Nat.pow 2 970

/-- Whether the number with the given digits, of which so many stand behind the point, is small
enough once it is multiplied by a power of ten. Its order of magnitude decides but for the numbers
with 309 digits before the point. -/
def isFinite (digits : List Char) (behind : Nat) (exponent : Int) : Bool :=
  let digits := significant digits
  let scale : Int := exponent - behind
  let order : Int := digits.length + scale
  if digits.isEmpty || order < 309 then true
  else if 309 < order then false
  else
    let n := (natural? 10 digits).getD 0
    n * Nat.pow 10 scale.toNat < tooGreat * Nat.pow 10 (-scale).toNat

/-- The digits of a text with single underscores between them; none for no text at all. -/
def optionalDigits? (text : Option (List Char)) : Option (List Char) :=
  match text with
  | none => some []
  | some cs => do
    let digits ← grouped? cs
    let _ ← natural? 10 digits
    return digits

/-- The exponent that a text stands for; none for no text at all. -/
def exponent? (text : Option (List Char)) : Option Int := do
  let digits ← optionalDigits? (text.map unsigned)
  let n := Int.ofNat ((natural? 10 digits).getD 0)
  return if text.any (·.head? == some '-') then -n else n

/-- What stands before a separator, and what stands behind it if it is there. -/
def cut (isSeparator : Char → Bool) (cs : List Char) : List Char × Option (List Char) :=
  (cs.takeWhile (! isSeparator ·), (cs.dropWhile (! isSeparator ·)).tail?)

/-- Whether a text is a number with a fraction, an exponent, or both, or one of the special ones. A
number has to be finite in 64 bits. -/
def isFloat (cs : List Char) : Bool :=
  let cs := unsigned cs
  if cs = "inf".toList || cs = "nan".toList then true
  else
    let (number, exponent) := cut (fun c => c = 'e' || c = 'E') cs
    let (whole, fraction) := cut (· = '.') number
    (exponent.isSome || fraction.isSome) && (decimal? whole).isSome &&
      match grouped? whole, optionalDigits? fraction, exponent? exponent with
      | some digits, some decimals, some exponent =>
        isFinite (digits ++ decimals) decimals.length exponent
      | _, _, _ => false

/-! ## Dates and times -/

/-- A number of exactly two digits within bounds, at the start of a text. -/
def pair? (least greatest : Nat) : List Char → Option (Nat × List Char)
  | a :: b :: rest => do
    let n ← natural? 10 [a, b]
    guard (least ≤ n && n ≤ greatest)
    return (n, rest)
  | _ => none

def daysIn (year month : Nat) : Nat :=
  if month = 2 then
    if year % 4 = 0 && (year % 100 != 0 || year % 400 == 0) then 29 else 28
  else if [4, 6, 9, 11].contains month then 30
  else 31

def afterDate? : List Char → Option (List Char)
  | a :: b :: c :: d :: '-' :: rest => do
    let year ← natural? 10 [a, b, c, d]
    match ← pair? 1 12 rest with
    | (month, '-' :: rest) => return (← pair? 1 (daysIn year month) rest).2
    | _ => none
  | _ => none

/-- What follows a time. Seconds may be left out, and may have a fraction. -/
def afterTime? (cs : List Char) : Option (List Char) := do
  match ← pair? 0 23 cs with
  | (_, ':' :: rest) =>
    match ← pair? 0 59 rest with
    | (_, ':' :: rest) =>
      match ← pair? 0 60 rest with
      | (_, '.' :: rest) =>
        guard (rest.head?.any Char.isDigit)
        return rest.dropWhile Char.isDigit
      | (_, rest) => return rest
    | (_, rest) => return rest
  | _ => none

/-- Whether a text is an offset from universal time. -/
def isOffset : List Char → Bool
  | ['Z'] | ['z'] => true
  | sign :: rest =>
    (sign = '+' || sign = '-') &&
      match pair? 0 23 rest with
      | some (_, ':' :: rest) => (pair? 0 59 rest).any (·.2.isEmpty)
      | _ => false
  | [] => false

/-- Whether a text is a date, a time, or both with or without an offset. -/
def isDateTime (cs : List Char) : Bool :=
  if (afterTime? cs).any List.isEmpty then true
  else
    match afterDate? cs with
    | none => false
    | some [] => true
    | some (separator :: time) =>
      (separator = 'T' || separator = 't' || separator = ' ') &&
        (afterTime? time).any fun rest => rest.isEmpty || isOffset rest

/-- The value that a word stands for: a word is a scalar that is no string. -/
def word? (cs : List Char) : Option Value :=
  if cs = "true".toList then some (.boolean true)
  else if cs = "false".toList then some (.boolean false)
  else if isDateTime cs then some .dateTime
  else
    match integer? cs with
    | some n => if inRange n then some (.integer n) else none
    | none => if isFloat cs then some .float else none

end Scalar

namespace TextReader

def isWordCharacter (c : Char) : Bool := c.isAlphanum || ['_', '+', '-', '.', ':'].contains c

/-- A word. A date and a time may have a space between them. -/
def word : TextReader Value := do
  let first ← takeAll isWordCharacter
  let rest ← get
  let cs ←
    if (Scalar.afterDate? first).any List.isEmpty then
      match rest with
      | ' ' :: digit :: _ =>
        if digit.isDigit then
          let _ ← character
          pure (first ++ ' ' :: (← takeAll isWordCharacter))
        else pure first
      | _ => pure first
    else pure first
  match Scalar.word? cs with
  | some value => return value
  | none => failure

end TextReader

end FormulaMarkup.Toml

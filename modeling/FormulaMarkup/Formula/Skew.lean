/-!
Skews: shifts of an accent, in steps of 1/18 em. A step counts as 0.0555 em, so that every skew is a
decimal fraction with four places.
-/
namespace FormulaMarkup.Skew

def natural? (cs : List Char) : Option Nat :=
  if cs.isEmpty || cs.any (! Char.isDigit ·) then none
  else some (cs.foldl (fun n c => 10 * n + (c.toNat - '0'.toNat)) 0)

/-- A whole number in decimal with at most one sign, of at most 64 bits. -/
def integer? (text : String) : Option Int :=
  match text.toList with
  | '-' :: cs => (natural? cs).bind fun n => if n ≤ Nat.pow 2 63 then some (-(n : Int)) else none
  | '+' :: cs => (natural? cs).bind fun n => if n < Nat.pow 2 63 then some (n : Int) else none
  | cs => (natural? cs).bind fun n => if n < Nat.pow 2 63 then some (n : Int) else none

/-- The places of a number of ten-thousandths behind the point, without zeros at the end. -/
def places (n : Nat) : List Char :=
  let digits := [n / 1000 % 10, n / 100 % 10, n / 10 % 10, n % 10].map Nat.digitChar
  (digits.reverse.dropWhile (· = '0')).reverse

def decimal (units : Nat) : String :=
  let fraction := units % 10000
  toString (units / 10000) ++
    if fraction = 0 then "" else String.ofList ('.' :: places fraction)

/-- The width of a skew, if its ten-thousandths of an em are below 2^64. -/
def width? (value : Int) : Option String :=
  let units := value.natAbs * 555
  if units < Nat.pow 2 64 then some ((if value < 0 then "-" else "") ++ decimal units ++ "em") else none

def opposite (width : String) : String :=
  match width.toList with
  | '-' :: cs => String.ofList cs
  | cs => String.ofList ('-' :: cs)

end FormulaMarkup.Skew

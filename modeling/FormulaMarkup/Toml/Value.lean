/-!
Values of a TOML document. A table remembers how it came about, because that decides what may still
be added to it: a table that a header names is closed to dotted keys, and a table that dotted keys
have made is closed to headers.
-/
namespace FormulaMarkup.Toml

inductive Origin where
  /-- A header names it. -/
  | header
  /-- A header names a table within it. -/
  | implied
  /-- A dotted key goes through it. -/
  | dotted
  /-- It is written in braces. -/
  | inlined
  deriving Repr, DecidableEq

inductive Value where
  | string (text : String)
  | integer (n : Int)
  | float
  | boolean (b : Bool)
  | dateTime
  | array (items : List Value)
  | table (origin : Origin) (entries : List (String × Value))
  /-- Tables that headers in double brackets name, the newest first. -/
  | series (newest : List (String × Value)) (older : List (List (String × Value)))
  deriving Repr

abbrev Entries := List (String × Value)

namespace Entries

/-- Replaces the value of a key, or adds the key. -/
def put (entries : Entries) (key : String) (value : Value) : Entries :=
  if entries.any (·.1 == key) then
    entries.map fun entry => if entry.1 == key then (key, value) else entry
  else entries ++ [(key, value)]

/-- Adds a value under a dotted key. Whether the table itself takes new keys is given. A table on the
way is one that no header names: it has come about by dotted keys too, or is only implied, and from
then on it counts as made by dotted keys. The tables of a series are named by headers, so they take
no new keys, but a further table can be made in the newest one. -/
def add (takesKeys : Bool) (entries : Entries) : List String → Value → Option Entries
  | [], _ => none
  | [key], value =>
    if takesKeys && (entries.lookup key).isNone then some (entries.put key value) else none
  | key :: path, value =>
    match entries.lookup key with
    | none => (add true [] path value).map fun inner => entries.put key (.table .dotted inner)
    | some (.table .dotted inner) | some (.table .implied inner) =>
      (add true inner path value).map fun inner => entries.put key (.table .dotted inner)
    | some (.series newest older) =>
      (add false newest path value).map fun newest => entries.put key (.series newest older)
    | _ => none

/-- Changes the table at a path, which starts in a given table. Tables on the way that are not there
are implied; of a series the newest one counts. -/
def changeAt (change : String → Entries → Option Entries) (entries : Entries) :
    List String → Option Entries
  | [] => none
  | [key] => change key entries
  | key :: path =>
    match entries.lookup key with
    | none => (changeAt change [] path).map fun inner => entries.put key (.table .implied inner)
    | some (.table origin inner) =>
      if origin = .inlined then none
      else (changeAt change inner path).map fun inner => entries.put key (.table origin inner)
    | some (.series newest older) =>
      (changeAt change newest path).map fun newest => entries.put key (.series newest older)
    | _ => none

/-- Names a table in a header: it is new, or only implied so far. -/
def openTable (key : String) (entries : Entries) : Option Entries :=
  match entries.lookup key with
  | none => some (entries.put key (.table .header []))
  | some (.table .implied inner) => some (entries.put key (.table .header inner))
  | _ => none

/-- Names a table of a series in a header. -/
def openSeries (key : String) (entries : Entries) : Option Entries :=
  match entries.lookup key with
  | none => some (entries.put key (.series [] []))
  | some (.series newest older) => some (entries.put key (.series [] (newest :: older)))
  | _ => none

def changeOpen (change : Entries → Option Entries) (key : String) (entries : Entries) :
    Option Entries :=
  match entries.lookup key with
  | some (.table origin inner) =>
    (change inner).map fun inner => entries.put key (.table origin inner)
  | some (.series newest older) =>
    (change newest).map fun newest => entries.put key (.series newest older)
  | _ => none

end Entries

end FormulaMarkup.Toml

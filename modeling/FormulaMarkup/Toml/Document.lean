import FormulaMarkup.Toml.Scalar

/-!
TOML documents: lines that name a table, and lines that give a key in the table that was named last.
-/
namespace FormulaMarkup.Toml

namespace TextReader

/-- A part of a key: bare, or a string on one line. -/
def keyPart : TextReader String := do
  if ← accept "\"" then singleLine '"' true
  else if ← accept "'" then singleLine '\'' false
  else
    let bare ← takeAll fun c => c.isAlphanum || c = '_' || c = '-'
    if bare.isEmpty then failure else return String.ofList bare

def key : TextReader (List String) :=
  loop (fun parts => do
    let part ← keyPart
    blanks
    if ← accept "." then
      blanks
      return .inl (parts ++ [part])
    else return .inr (parts ++ [part])) []

def scalar : TextReader Value := do
  match ← string? with
  | some text => return .string text
  | none => word

def array (item : TextReader Value) : TextReader Value := do
  gap
  let items ← loop (fun items => do
    if ← accept "]" then return .inr items
    else
      let items := items ++ [← item]
      gap
      if ← accept "," then
        gap
        return .inl items
      else
        expect "]"
        return .inr items) []
  return .array items

/-- A table in braces, behind the opening one. Blanks, comments and line ends may stand anywhere in it
but within a key. -/
def inlined (item : TextReader Value) : TextReader Value := do
  gap
  let entries ← loop (fun (entries : Entries) => do
    if ← accept "\x7d" then return .inr entries
    else
      let path ← key
      gap
      expect "="
      gap
      match entries.add true path (← item) with
      | none => failure
      | some entries =>
        gap
        if ← accept "," then
          gap
          return .inl entries
        else
          expect "\x7d"
          return .inr entries) []
  return .table .inlined entries

/-- A value in which arrays and tables are nested at most to a given depth. -/
def value : Nat → TextReader Value
  | 0 => scalar
  | depth + 1 => do
    if ← accept "[" then array (value depth)
    else if ← accept "\x7b" then inlined (value depth)
    else scalar

/-- How deep arrays and tables may be nested in a value. -/
def maxDepth : Nat := 80

end TextReader

/-- A document that has been read up to a line. -/
structure Document where
  entries : Entries := []
  /-- The path to the table that was named last; empty for the table of the document. -/
  current : List String := []

namespace Document

open TextReader

/-- Adds a key to the table that was named last. -/
def add (document : Document) (path : List String) (value : Value) : Option Document :=
  let added (entries : Entries) : Option Entries := entries.add true path value
  let changed :=
    if document.current.isEmpty then added document.entries
    else document.entries.changeAt (Entries.changeOpen added) document.current
  changed.map fun entries => { document with entries }

/-- A line with a header, behind its first bracket. -/
def header (document : Document) : TextReader Document := do
  let many ← accept "["
  blanks
  let path ← key
  expect (if many then "]]" else "]")
  restOfLine
  let opened := if many then Entries.openSeries else Entries.openTable
  match document.entries.changeAt opened path with
  | some entries => return ⟨entries, path⟩
  | none => failure

/-- One line, with which the document goes on; at the end of the text it is complete. -/
def line (document : Document) : TextReader (Document ⊕ Entries) := do
  blanks
  comment
  if (← get).isEmpty then return .inr document.entries
  else if ← lineEnd then return .inl document
  else if ← accept "[" then return .inl (← header document)
  else
    let path ← key
    expect "="
    blanks
    let value ← value maxDepth
    restOfLine
    match document.add path value with
    | some document => return .inl document
    | none => failure

/-- The entries of the document that a text is, if it is one. A byte order mark may stand before
it. -/
def entriesOf? (text : String) : Option Entries :=
  let cs := match text.toList with
    | '\ufeff' :: cs => cs
    | cs => cs
  (StateT.run (loop line {}) cs).map (·.1)

end Document

end FormulaMarkup.Toml

import FormulaMarkup.Symbol.Record

/-!
Symbol tables: from names, which are commands or single characters, to code points. A table is made
from records; where they list a name twice the first time counts. On top of the records every table
has the same corrections, and one name that no table may have.
-/
namespace FormulaMarkup

/-- What a table gives for a name that the records get wrong or leave out. -/
inductive Correction where
  | code (n : Nat)
  /-- The code point that the records list for another name; nothing if they do not list it. -/
  | sameAs (name : String)
  deriving Repr, DecidableEq

def corrections : List (String × Correction) := [
  ("\\And", .sameAs "\\ampersand"),
  ("\\bigcirc", .sameAs "\\lgwhtcircle"),
  ("\\Box", .sameAs "\\square"),
  ("\\circledS", .code 0x24C8),
  ("\\diagdown", .code 0x2572),
  ("\\diagup", .code 0x2571),
  ("\\dots", .code 0x2026),
  ("\\dotsb", .sameAs "\\cdots"),
  ("\\dotsc", .code 0x2026),
  ("\\dotsi", .sameAs "\\cdots"),
  ("\\dotsm", .sameAs "\\cdots"),
  ("\\dotso", .code 0x2026),
  ("\\emptyset", .code 0x2205),
  ("\\gggt", .code 0x22D9),
  ("\\gvertneqq", .code 0x2269),
  ("\\gt", .sameAs "\\greater"),
  ("\\ldotp", .sameAs "\\period"),
  ("\\llless", .sameAs "\\lll"),
  ("\\lt", .sameAs "\\less"),
  ("\\lvert", .sameAs "\\vert"),
  ("\\lVert", .sameAs "\\Vert"),
  ("\\lvertneqq", .sameAs "\\lneqq"),
  ("\\ngeqq", .sameAs "\\ngeq"),
  ("\\nshortmid", .sameAs "\\nmid"),
  ("\\nshortparallel", .sameAs "\\nparallel"),
  ("\\nsubseteqq", .sameAs "\\nsubseteq"),
  ("\\omicron", .sameAs "\\upomicron"),
  ("\\rvert", .sameAs "\\vert"),
  ("\\rVert", .sameAs "\\Vert"),
  ("\\shortmid", .sameAs "\\mid"),
  ("\\smallfrown", .sameAs "\\frown"),
  ("\\smallint", .code 0x222B),
  ("\\smallsmile", .sameAs "\\smile"),
  ("\\surd", .sameAs "\\sqrt"),
  ("\\thicksim", .code 0x223C),
  ("\\thickapprox", .sameAs "\\approx"),
  ("\\varsubsetneqq", .sameAs "\\subsetneqq"),
  ("\\varsupsetneq", .code 0x228B),
  ("\\varsupsetneqq", .sameAs "\\supsetneqq")]

/-- A command that sets an accent: it stands for no character, whatever the records list. -/
def accentCommand : String := "\\mathring"

/-- A symbol table, as a list in which the first entry for a name counts. -/
structure SymbolTable where
  entries : List (String × Nat)
  deriving Repr

namespace SymbolTable

/-- The names of all records with their code points, in the order in which they are listed. -/
def listed (records : List SymbolRecord) : List (String × Nat) :=
  records.flatMap fun record => record.names.map fun name => (name, record.code)

/-- The code point that a correction stands for, given what the records list. -/
def resolve (names : List (String × Nat)) : Correction → Option Nat
  | .code n => some n
  | .sameAs name => names.lookup name

/-- The table of a list of records: the corrections, which refer to the records and never to each
other, then the names as the records list them, without the accent command. -/
def ofRecords (records : List SymbolRecord) : SymbolTable :=
  let names := listed records
  let corrected := corrections.filterMap fun (name, correction) =>
    (resolve names correction).map fun code => (name, code)
  ⟨(corrected ++ names).filter fun entry => entry.1 ≠ accentCommand⟩

/-- The table that the text of a symbol file describes. -/
def ofText (text : String) : SymbolTable := ofRecords (SymbolRecord.ofText text)

def codePoint? (table : SymbolTable) (name : String) : Option Nat := table.entries.lookup name

def contains (table : SymbolTable) (name : String) : Bool := (table.codePoint? name).isSome

/-- The character of a code point, if it has one. -/
def scalar? (code : Nat) : Option Char :=
  if h : code.isValidChar then some (Char.ofNatAux code h) else none

/-- The character of a name: none if the name is unknown or its code point has no character. -/
def character? (table : SymbolTable) (name : String) : Option Char :=
  (table.codePoint? name).bind scalar?

/-- The character that a name stands for, or the name itself. -/
def textOf (table : SymbolTable) (name : String) : String :=
  match table.character? name with
  | some c => String.singleton c
  | none => name

def size (table : SymbolTable) : Nat := (table.entries.map (·.1)).eraseDups.length

def isEmpty (table : SymbolTable) : Bool := table.entries.isEmpty

end SymbolTable

end FormulaMarkup

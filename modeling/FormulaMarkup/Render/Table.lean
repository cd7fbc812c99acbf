import FormulaMarkup.Formula.Node
import FormulaMarkup.Markup.Element

/-!
Tables. The body of a table is a list of nodes in which some tokens end a cell or a row, draw a line
between rows, or fill a cell from one side. All other nodes are content, and come with what they
are drawn as.
-/
namespace FormulaMarkup.Table

/-- A node of a table body: its token and what it is drawn as. -/
abbrev Item := String × List Element

inductive Role where
  | cellEnd | rowEnd
  | line (kind : String)
  /-- Space that moves the content to the other side of its cell. -/
  | fill
  /-- A group, which counts neither for lines nor for fills. -/
  | group
  | content
  deriving Repr, DecidableEq

def role (token : String) : Role :=
  if token == Word.braces then .group
  else if token == "&" then .cellEnd
  else if token == "\\\\" || token == "\\cr" then .rowEnd
  else if token == "\\hline" then .line "solid"
  else if token == "\\hdashline" then .line "dashed"
  else if token == "\\hfil" then .fill
  else .content

def Item.role (item : Item) : Role := Table.role item.1

def Item.isDrawn (item : Item) : Bool := item.role = .content || item.role = .group

/-! ## Cells -/

def alignmentWord? : Char → Option String
  | 'l' => some "left"
  | 'c' => some "center"
  | 'r' => some "right"
  | _ => none

/-- The alignment of a column: the letters are used again and again. -/
def columnAlignment? (letters : List Char) (column : Nat) : Option String :=
  (letters[column % letters.length]?).bind alignmentWord?

/-- The fills of a cell and what it holds of content, in order: true for a fill. -/
def fills (cell : List Item) : List Bool :=
  cell.filterMap fun item =>
    match item.role with
    | .fill => some true
    | .content => some false
    | _ => none

/-- The alignment that fills give to a cell: they have to be on one side of it, and only there. -/
def fillAlignment? (cell : List Item) : Option String :=
  match (fills cell).head?, (fills cell).getLast? with
  | some true, some false => some "right"
  | some false, some true => some "left"
  | _, _ => none

/-- The tables whose columns are paired, the first of two aligned to the right and the second to the
left. -/
def isPaired (command : String) : Bool :=
  ["\\split", "\\align", "\\align*", "\\aligned"].contains command

/-- A cell. The second cell of a pair begins with an empty identifier, so that an operator at its
start has something on its left. -/
def cell (paired : Bool) (letters : List Char) (column : Nat) (items : List Item) : Element :=
  let alignment := (fillAlignment? items).or (columnAlignment? letters column)
  let lead := if paired && column % 2 = 1 then [Element.ofTag "mi"] else []
  ⟨"mtd", (alignment.map fun word => ("columnalign", word)).toList, "",
    lead ++ (items.filter Item.isDrawn).flatMap (·.2)⟩

/-! ## Rows -/

/-- The cells of the rows of a body. A body without items has no row. -/
def rowsOf (body : List Item) : List (List (List Item)) :=
  if body.isEmpty then []
  else (body.splitOnP (Item.role · = .rowEnd)).map (List.splitOnP (Item.role · = .cellEnd))

def row (paired : Bool) (letters : List Char) (cells : List (List Item)) : Element :=
  Element.holding "mtr" (cells.mapIdx fun column items => cell paired letters column items)

/-- Whether a row is what stands behind the end of the last one: a single cell without content. -/
def isTrailing (row : Element) : Bool :=
  match row.children with
  | [only] => only.isEmpty
  | _ => false

/-- The rows of a body, without a trailing one. -/
def rows (paired : Bool) (letters : List Char) (body : List Item) : List Element :=
  let all := (rowsOf body).map (row paired letters)
  if all.getLast?.any isTrailing then all.dropLast else all

/-! ## Lines -/

/-- The lines above the rows so far: how many rows have ended, and the lines in order. -/
structure Lines where
  ended : Nat := 0
  kinds : List String := []
  deriving Repr

/-- The lines after one more item. Content in a row says that there is no line above it, unless a
line has been given for it. -/
def Lines.after (lines : Lines) (item : Item) : Lines :=
  match item.role with
  | .rowEnd => { lines with ended := lines.ended + 1 }
  | .line kind => { lines with kinds := lines.kinds ++ [kind] }
  | .content =>
    if lines.kinds.length < lines.ended then { lines with kinds := lines.kinds ++ ["none"] }
    else lines
  | _ => lines

def lineKinds (body : List Item) : List String := (body.foldl Lines.after {}).kinds

/-- Splits the rules between columns out of an alignment: gives the letters of the columns and, if
there are rules, an entry for each gap between columns. -/
def splitAlignment (alignment : String) : List Char × Option (List String) :=
  if alignment.toList.contains '|' then
    let (letters, rules) := alignment.toList.foldl step ([], [])
    (letters, some rules)
  else (alignment.toList, none)
where
  /-- A bar is a rule; a column without a rule before it is noticed when the next one comes. -/
  step : List Char × List String → Char → List Char × List String
    | (letters, rules), c =>
      let (letters, rules) :=
        if c = '|' then (letters, rules ++ ["solid"]) else (letters ++ [c], rules)
      (letters, if letters.length = rules.length + 2 then rules ++ ["none"] else rules)

/-! ## The table -/

/-- The tables with a space between their pairs of columns. -/
def isSpaced (command : String) : Bool := ["\\align", "\\align*", "\\aligned"].contains command

def lettersFor (command : String) (alignment : List Char) : List Char :=
  if command == "\\cases" then ['l'] else if isPaired command then ['r', 'l'] else alignment

/-- Fills the element of a table with its rows, and sets what the body says about lines and about
the space between columns. -/
def fillIn (command : String) (alignment : List Char) (body : List Item) (table : Element) :
    Element :=
  let letters := lettersFor command alignment
  let table := table.appendChildren (rows (isPaired command) letters body)
  let kinds := lineKinds body
  let table :=
    if kinds.contains "solid" then table.setAttribute "rowlines" (" ".intercalate kinds) else table
  if isSpaced command && !body.isEmpty then
    let columns := ((rowsOf body).map List.length).foldl max 0
    let spaces := List.replicate (max 1 (columns / 2)) "0em 2em"
    table.setAttribute "columnspacing" (" ".intercalate spaces)
  else table

end FormulaMarkup.Table

import FormulaMarkup.Proofs.Render.Segments

/-!
Table bodies in one pass. The nodes of a body are gone through one by one, with a row and a cell that
are open, a counter that hands out the alignments of columns, and the fills of the open cell. Main
statement: the pass makes the rows and cells that the body has when it is split at its row ends and
each row at its cell ends, and nothing is lost or moved on the way.
-/
namespace FormulaMarkup

namespace Table

/-! ## Segments that go on -/

/-- Segments, the first cell of which goes on with a row and a cell that are open. -/
def resume (cells : List (List Node)) (run : List Node) (rows : List (List (List Node))) :
    List (List (List Node)) :=
  rows.modifyHead fun row => cells ++ row.modifyHead (run ++ ·)

theorem resume_nil (cells : List (List Node)) (run : List Node) :
    resume cells run (segments []) = [cells ++ [run]] := by
  simp [resume, segments]

theorem resume_start (rows : List (List (List Node))) : resume [] [] rows = rows := by
  rcases rows with _ | ⟨_ | ⟨cell, cells⟩, rows⟩ <;> rfl

theorem resume_cons (cells : List (List Node)) (run : List Node) (first : Node) (rest : List Node) :
    resume cells run (segments (first :: rest)) =
      if first.endsRow then (cells ++ [run]) :: segments rest
      else if first.endsCell then resume (cells ++ [run]) [] (segments rest)
      else resume cells (run ++ [first]) (segments rest) := by
  obtain ⟨line, lines, rowEnds⟩ :=
    List.exists_cons_of_ne_nil (List.splitOnP_ne_nil Node.endsRow rest)
  obtain ⟨cell, more, cellEnds⟩ :=
    List.exists_cons_of_ne_nil (List.splitOnP_ne_nil Node.endsCell line)
  unfold resume segments
  rw [List.splitOnP_cons_eq_if_modifyHead, rowEnds]
  cases first.endsRow with
  | true => simp
  | false =>
    simp only [Bool.false_eq_true, if_false, List.modifyHead_cons, List.map_cons,
      List.splitOnP_cons_eq_if_modifyHead, cellEnds]
    cases first.endsCell <;> simp

/-! ## Tables with their rows -/

/-- Gives a table with its rows what its body says about lines, and about the space between columns if
there are any. -/
def dress (command : String) (kinds : List String) (columns : Nat) (table : Element) : Element :=
  let table :=
    if kinds.contains "solid" then table.setAttribute "rowlines" (" ".intercalate kinds) else table
  if isSpaced command && decide (0 < columns) then
    let spaces := List.replicate (max 1 (columns / 2)) "0em 2em"
    table.setAttribute "columnspacing" (" ".intercalate spaces)
  else table

/-- The columns make a difference only where there is a space between them. -/
theorem dress_columns (command : String) (kinds : List String) {columns columns' : Nat}
    (table : Element) (same : isSpaced command = true → columns = columns') :
    dress command kinds columns table = dress command kinds columns' table := by
  unfold dress
  cases spaced : isSpaced command with
  | true => rw [same spaced]
  | false => rfl

/-- The number of columns that the widest row of a body has. -/
def columnsOf (rows : List (List (List Item))) : Nat := (rows.map List.length).foldl max 0

theorem columnsOf_pos (body : List Item) : decide (0 < columnsOf (rowsOf body)) = !body.isEmpty := by
  cases body with
  | nil => rfl
  | cons first rest =>
    obtain ⟨line, lines, split⟩ := List.exists_cons_of_ne_nil
      (List.splitOnP_ne_nil (fun item : Item => decide (item.role = .rowEnd)) (first :: rest))
    have some : 0 < (line.splitOnP fun item : Item => decide (item.role = .cellEnd)).length :=
      List.length_pos_of_ne_nil (List.splitOnP_ne_nil _ line)
    have widest : 0 < columnsOf (rowsOf (first :: rest)) := by
      unfold columnsOf rowsOf
      rw [List.isEmpty_cons, if_neg Bool.false_ne_true, split, List.map_cons, List.map_cons,
        List.foldl_cons, List.foldl_max]
      omega
    exact decide_eq_true widest

theorem fillIn_eq (command : String) (alignment : List Char) (body : List Item) (table : Element) :
    fillIn command alignment body table =
      dress command (lineKinds body) (columnsOf (rowsOf body))
        (table.appendChildren (rows (isPaired command) (lettersFor command alignment) body)) := by
  unfold fillIn dress
  rw [columnsOf_pos]
  rfl

theorem children_dress (command : String) (kinds : List String) (columns : Nat) (table : Element) :
    (dress command kinds columns table).children = table.children := by
  unfold dress
  dsimp only
  repeat' split
  all_goals rfl

/-! ## Columns and cells of a pass -/

/-- Hands out the alignments of columns, one for each cell that is begun. A letter without a meaning
leaves the alignment as it is. -/
structure Columns where
  letters : List Char
  begun : Nat := 0
  alignment : Option String := none

namespace Columns

def next (columns : Columns) : Columns :=
  match columns.letters[columns.begun % columns.letters.length]? with
  | some letter =>
    { columns with
      begun := columns.begun + 1
      alignment := (alignmentWord? letter).or columns.alignment }
  | none => columns

/-- The counter with a column that has been begun. Without letters nothing is counted. -/
def upTo (letters : List Char) (column : Nat) : Columns :=
  if letters.isEmpty then { letters } else ⟨letters, column + 1, columnAlignment? letters column⟩

variable {letters : List Char}

theorem alignment_upTo (column : Nat) :
    (upTo letters column).alignment = columnAlignment? letters column := by
  cases letters <;> rfl

theorem begun_upTo (some : letters ≠ []) (column : Nat) : (upTo letters column).begun = column + 1 := by
  rw [upTo, List.isEmpty_eq_false_iff.mpr some]
  rfl

/-- The letters that stand for an alignment. -/
def Known (letters : List Char) : Prop := ∀ letter ∈ letters, letter ∈ ['l', 'c', 'r']

instance : DecidablePred Known := fun letters =>
  List.decidableBAll (fun letter => letter ∈ ['l', 'c', 'r']) letters

theorem isSome_alignmentWord {letter : Char} (known : letter ∈ ['l', 'c', 'r']) :
    (alignmentWord? letter).isSome := by
  simp only [List.mem_cons, List.not_mem_nil, or_false] at known
  rcases known with rfl | rfl | rfl <;> rfl

/-- The letter of a column gives it an alignment. -/
theorem alignment_letter (known : Known letters) (some : letters ≠ []) (column : Nat) :
    ∃ letter word, letters[column % letters.length]? = Option.some letter ∧
      alignmentWord? letter = Option.some word ∧ columnAlignment? letters column = Option.some word := by
  have within := Nat.mod_lt column (List.length_pos_of_ne_nil some)
  obtain ⟨word, meaning⟩ := Option.isSome_iff_exists.mp
    (isSome_alignmentWord (known _ (List.getElem_mem within)))
  refine ⟨_, word, List.getElem?_eq_getElem within, meaning, ?_⟩
  rw [columnAlignment?, List.getElem?_eq_getElem within, Option.bind_some, meaning]

theorem next_eq (known : Known letters) (column : Nat) (last : Option String) :
    next ⟨letters, column, last⟩ =
      if letters.isEmpty then ⟨letters, column, last⟩
      else ⟨letters, column + 1, columnAlignment? letters column⟩ := by
  cases letters with
  | nil => rfl
  | cons first more =>
    obtain ⟨letter, word, found, meaning, told⟩ :=
      alignment_letter known (List.cons_ne_nil first more) column
    unfold next
    dsimp only
    rw [found, told]
    dsimp only
    rw [meaning]
    rfl

theorem next_start (known : Known letters) : next { letters } = upTo letters 0 := by
  rw [next_eq known, upTo]

theorem next_upTo (known : Known letters) (column : Nat) :
    (upTo letters column).next = upTo letters (column + 1) := by
  unfold upTo
  cases letters with
  | nil => rfl
  | cons first more => exact next_eq known (column + 1) _

theorem next_reset (known : Known letters) (column : Nat) :
    next { upTo letters column with begun := 0 } = upTo letters 0 := by
  unfold upTo
  cases letters with
  | nil => rfl
  | cons first more => exact next_eq known 0 _

end Columns

/-- An open cell: one whose fills have not been looked at. -/
def openCell (paired : Bool) (letters : List Char) (column : Nat) (items : List Item) : Element :=
  { cell paired letters column items with
    attributes := ((columnAlignment? letters column).map fun word => ("columnalign", word)).toList }

/-- A cell in which nothing stands yet. -/
def newCell (columns : Columns) : Element :=
  match columns.alignment with
  | some word => (Element.ofTag "mtd").setAttribute "columnalign" word
  | none => Element.ofTag "mtd"

/-- A cell behind another one. The second cell of a pair begins with an empty identifier. -/
def nextCell (command : String) (columns : Columns) : Element :=
  if isPaired command && columns.begun % 2 = 0 then
    (newCell columns).appendChild (Element.ofTag "mi")
  else newCell columns

/-- Moves the content of a cell to the side on which it has no fill, if the other one has. -/
def fillCell (fills : List Bool) (cell : Element) : Element :=
  if fills.contains true then
    match fills.head?, fills.getLast? with
    | some true, some false => cell.setAttribute "columnalign" "right"
    | some false, some true => cell.setAttribute "columnalign" "left"
    | _, _ => cell
  else cell

section

variable (paired : Bool) (letters : List Char) (column : Nat)

theorem newCell_upTo : newCell (.upTo letters column) =
    ⟨"mtd", ((columnAlignment? letters column).map fun word => ("columnalign", word)).toList,
      "", []⟩ := by
  unfold newCell
  rw [Columns.alignment_upTo]
  cases columnAlignment? letters column <;> rfl

theorem newCell_first : newCell (.upTo letters 0) = openCell paired letters 0 [] := by
  rw [newCell_upTo]
  cases paired <;> rfl

theorem nextCell_upTo (command : String) (aligned : isPaired command = true → letters ≠ []) :
    nextCell command (.upTo letters (column + 1)) = openCell (isPaired command) letters (column + 1) [] := by
  unfold nextCell
  rw [newCell_upTo]
  cases pair : isPaired command with
  | false => rfl
  | true =>
    have parity : ((column + 1 + 1) % 2 = 0) = ((column + 1) % 2 = 1) := propext (by omega)
    rw [Columns.begun_upTo (aligned pair)]
    simp only [openCell, cell, parity]
    split <;> simp_all [Element.appendChild]

theorem openCell_concat (items : List Item) (item : Item) :
    openCell paired letters column (items ++ [item]) =
      if item.isDrawn then (openCell paired letters column items).appendChildren item.2
      else openCell paired letters column items := by
  unfold openCell cell Element.appendChildren
  cases drawn : item.isDrawn with
  | true => simp [drawn]
  | false => simp [drawn]

theorem openCell_setAttribute (items : List Item) (word : String) :
    (openCell paired letters column items).setAttribute "columnalign" word =
      { cell paired letters column items with attributes := [("columnalign", word)] } := by
  unfold Element.setAttribute openCell
  cases columnAlignment? letters column <;> rfl

/-- Without a fill neither end of the list is one. -/
theorem fillCell_eq (fills : List Bool) (cell : Element) :
    fillCell fills cell =
      match fills.head?, fills.getLast? with
      | some true, some false => cell.setAttribute "columnalign" "right"
      | some false, some true => cell.setAttribute "columnalign" "left"
      | _, _ => cell := by
  unfold fillCell
  split
  · rfl
  · rename_i without
    rw [List.contains_iff_mem] at without
    split
    · rename_i first _
      exact absurd (List.mem_of_head? first) without
    · rename_i _ last
      exact absurd (List.mem_of_getLast? last) without
    · rfl

theorem fillCell_openCell (items : List Item) :
    fillCell (fills items) (openCell paired letters column items) = cell paired letters column items := by
  have told (alignment : Option String) (same : fillAlignment? items = alignment) :
      cell paired letters column items = { cell paired letters column items with
        attributes := ((alignment.or (columnAlignment? letters column)).map
          fun word => ("columnalign", word)).toList } := by
    rw [← same]
    rfl
  rw [fillCell_eq]
  unfold fillAlignment? at told
  split
  · rw [openCell_setAttribute, told (some "right") (by simp [*])]
    rfl
  · rw [openCell_setAttribute, told (some "left") (by simp [*])]
    rfl
  · rw [told none (by split <;> simp_all)]
    rfl

theorem fills_concat (items : List Item) (item : Item) :
    fills (items ++ [item]) = fills items ++
      match item.role with
      | .fill => [true]
      | .content => [false]
      | _ => [] := by
  unfold fills
  rw [List.filterMap_append]
  cases r : item.role <;> simp [r]

theorem row_concat (cells : List (List Item)) (items : List Item) :
    row paired letters (cells ++ [items]) =
      (row paired letters cells).appendChild (cell paired letters cells.length items) := by
  unfold row Element.holding Element.appendChild
  rw [List.mapIdx_concat]

end

end Table


namespace Draw

open Table

/-! ## The pass -/

/-- What a pass over the body of a table has come to. -/
structure Pass where
  /-- The table with the rows that have ended. -/
  table : Element
  /-- The row and the cell that are open. The first node opens them. -/
  opened : Option (Element × Element) := none
  columns : Columns
  /-- The most columns that a row has had. -/
  widest : Nat := 0
  lines : Lines := {}
  /-- The fills of the open cell, and what it holds of content. -/
  fills : List Bool := []

namespace Pass

/-- The row and the cell to go on with, and the counter behind that cell. -/
def ready (pass : Pass) : Element × Element × Columns :=
  match pass.opened with
  | some (row, cell) => (row, cell, pass.columns)
  | none => (Element.ofTag "mtr", newCell pass.columns.next, pass.columns.next)

/-- One turn of the pass: a node ends the open cell, ends the open row too, draws a line, fills a side
of the cell, or is written into it. -/
def step (pen : Pen) (command : String) (pass : Pass) (node : Node) : Pass :=
  let (row, cell, columns) := pass.ready
  let pass := { pass with columns, lines := pass.lines.after (node.token, []) }
  match role node.token with
  | .cellEnd =>
    { pass with
      opened := some (row.appendChild (fillCell pass.fills cell), nextCell command columns.next)
      columns := columns.next
      fills := [] }
  | .rowEnd =>
    let first := Columns.next { columns with begun := 0 }
    { pass with
      table := pass.table.appendChild (row.appendChild (fillCell pass.fills cell))
      opened := some (Element.ofTag "mtr", newCell first)
      columns := first
      widest := max pass.widest columns.begun
      fills := [] }
  | .line _ => { pass with opened := some (row, cell) }
  | .fill => { pass with opened := some (row, cell), fills := pass.fills ++ [true] }
  | .group => { pass with opened := some (row, write pen [] cell [node]) }
  | .content =>
    { pass with
      opened := some (row, write pen [] cell [node])
      fills := pass.fills ++ [false] }

/-- The table with the last row, which is left out where it is one empty cell, and with what the pass
has found out about lines and columns. -/
def finish (command : String) (pass : Pass) : Element :=
  let table := match pass.opened with
    | some (row, cell) =>
      let cell := fillCell pass.fills cell
      if row.children.isEmpty && cell.isEmpty then pass.table
      else pass.table.appendChild (row.appendChild cell)
    | none => pass.table
  dress command pass.lines.kinds (max pass.widest pass.columns.begun) table

end Pass

/-- Writes the body of a table into it, with the letters of its columns. -/
def writeTable (pen : Pen) (command : String) (letters : List Char) (nodes : List Node)
    (table : Element) : Element :=
  (nodes.foldl (Pass.step pen command) { table, columns := { letters } }).finish command

/-! ## What the pass has made at a place -/

/-- The context of what is written into a cell. -/
def Pen.inCell (pen : Pen) : Context := pen.context (Element.ofTag "mtd")

theorem each_concat (ctx : Context) (nodes : List Node) (node : Node) :
    each ctx (nodes ++ [node]) = each ctx nodes ++ each ctx [node] := by
  rw [each_eq_map, each_eq_map, each_eq_map, List.map_append]

section

variable (pen : Pen) (command : String) (letters : List Char) (table : Element)

/-- The state of a pass behind some rows, with an open row of some cells and an open cell. -/
def Pass.at (done : List (List (List Node))) (cells : List (List Node)) (run : List Node)
    (lines : Lines) : Pass where
  table := table.appendChildren (done.map (rowOf pen.inCell command letters))
  opened := some (rowOf pen.inCell command letters cells,
    openCell (isPaired command) letters cells.length (each pen.inCell run))
  columns := .upTo letters cells.length
  widest := if letters.isEmpty then 0 else (done.map List.length).foldl max 0
  lines
  fills := Table.fills (each pen.inCell run)

variable {pen command letters table}

theorem write_openCell (paired : Bool) (column : Nat) (run : List Node) (node : Node) :
    write pen [] (openCell paired letters column (each pen.inCell run)) [node] =
      (openCell paired letters column (each pen.inCell run)).appendChildren
        ((Draw.node pen.inCell node).before []) := by
  have same : pen.context (openCell paired letters column (each pen.inCell run)) =
      pen.inCell := by
    unfold Pen.context openCell Element.attribute?
    cases columnAlignment? letters column <;> rfl
  rw [write_eq, same, group_one]

theorem rowOf_concat (cells : List (List Node)) (run : List Node) :
    rowOf pen.inCell command letters (cells ++ [run]) =
      (rowOf pen.inCell command letters cells).appendChild
        (fillCell (Table.fills (each pen.inCell run))
          (openCell (isPaired command) letters cells.length (each pen.inCell run))) := by
  unfold rowOf
  rw [List.map_append, List.map_singleton, row_concat, List.length_map, fillCell_openCell]

variable (known : Columns.Known letters) (aligned : isPaired command = true → letters ≠ [])
variable (done : List (List (List Node))) (cells : List (List Node)) (run : List Node) (lines : Lines)
variable {node : Node}

theorem at_start (known : Columns.Known letters) : Pass.at pen command letters table [] [] [] {} =
    { table
      opened := some (Element.ofTag "mtr", newCell (Columns.next { letters }))
      columns := Columns.next { letters } } := by
  have widest : (if letters.isEmpty then 0 else 0) = 0 := ite_self 0
  unfold Pass.at rowOf
  rw [Columns.next_start known, newCell_first (isPaired command), each_nil]
  simp only [List.map_nil, List.foldl_nil, widest, Element.appendChildren_nil]
  rfl

/-- The first node opens the first cell. -/
theorem step_start (known : Columns.Known letters) (first : Node) :
    Pass.step pen command { table, columns := { letters } } first =
      Pass.step pen command (.at pen command letters table [] [] [] {}) first := by
  rw [at_start known]
  rfl

theorem widest_concat : max (if letters.isEmpty then 0 else (done.map List.length).foldl max 0)
    (Columns.upTo letters cells.length).begun =
      if letters.isEmpty then 0 else ((done ++ [cells ++ [run]]).map List.length).foldl max 0 := by
  cases letters with
  | nil => rfl
  | cons first more => simp [Columns.upTo]

include known

theorem step_rowEnd (ends : role node.token = .rowEnd) :
    (Pass.at pen command letters table done cells run lines).step pen command node =
      .at pen command letters table (done ++ [cells ++ [run]]) [] [] (lines.after (node.token, [])) := by
  have rows := Element.appendChildren_appendChildren table (done.map (rowOf pen.inCell command letters))
    [rowOf pen.inCell command letters (cells ++ [run])]
  rw [← List.map_singleton (f := rowOf pen.inCell command letters), ← List.map_append] at rows
  unfold Pass.step
  dsimp only [Pass.ready, Pass.at]
  rw [ends]
  dsimp only
  rw [widest_concat done cells run, Columns.next_reset known, newCell_first (isPaired command), each_nil,
    ← rows, ← rowOf_concat]
  rfl

include aligned

theorem step_cellEnd (ends : role node.token = .cellEnd) :
    (Pass.at pen command letters table done cells run lines).step pen command node =
      .at pen command letters table done (cells ++ [run]) [] (lines.after (node.token, [])) := by
  unfold Pass.step
  dsimp only [Pass.ready, Pass.at]
  rw [ends]
  dsimp only
  rw [Columns.next_upTo known, nextCell_upTo _ _ command aligned, each_nil, ← rowOf_concat,
    List.length_append]
  rfl

omit aligned known

theorem step_inside (inRow : role node.token ≠ .rowEnd) (inCell : role node.token ≠ .cellEnd) :
    (Pass.at pen command letters table done cells run lines).step pen command node =
      .at pen command letters table done cells (run ++ [node]) (lines.after (node.token, [])) := by
  unfold Pass.step
  dsimp only [Pass.ready, Pass.at]
  have single : each pen.inCell [node] =
      [(node.token, (Draw.node pen.inCell node).before [])] := each_eq_map _ _
  rw [each_concat, single, fills_concat, openCell_concat, write_openCell]
  unfold Item.isDrawn Item.role
  cases r : role node.token with
  | rowEnd => exact absurd r inRow
  | cellEnd => exact absurd r inCell
  | group => simp
  | line kind => simp
  | fill => simp
  | content => simp

include aligned known

/-- A pass splits what is before it: behind all nodes, the rows that have ended and the open one are
the rows that were there and the segments of the nodes, the first of which goes on with what was open. -/
theorem foldl_at (nodes : List Node) : ∃ done' cells' run',
    nodes.foldl (Pass.step pen command) (.at pen command letters table done cells run lines) =
      .at pen command letters table done' cells' run' (lines.over nodes) ∧
    done' ++ [cells' ++ [run']] = done ++ resume cells run (segments nodes) := by
  induction nodes generalizing done cells run lines with
  | nil => exact ⟨done, cells, run, rfl, by rw [resume_nil]⟩
  | cons first rest ih =>
    rw [List.foldl_cons, over_cons, resume_cons]
    split
    · rename_i ends
      rw [endsRow_eq, decide_eq_true_eq] at ends
      have after := ih (done ++ [cells ++ [run]]) [] [] (lines.after (first.token, []))
      rw [resume_start, ← List.append_cons] at after
      rw [step_rowEnd known _ _ _ _ ends]
      exact after
    · rename_i inRow
      rw [endsRow_eq, decide_eq_true_eq] at inRow
      split
      · rename_i ends
        rw [endsCell_eq, decide_eq_true_eq] at ends
        rw [step_cellEnd known aligned _ _ _ _ ends]
        exact ih done (cells ++ [run]) [] _
      · rename_i inCell
        rw [endsCell_eq, decide_eq_true_eq] at inCell
        rw [step_inside _ _ _ _ inRow inCell]
        exact ih done cells (run ++ [first]) _

omit known aligned

/-- A single cell that shows nothing is a row that is left out. -/
theorem trailing_concat : ((rowOf pen.inCell command letters cells).children.isEmpty &&
    (cell (isPaired command) letters cells.length (each pen.inCell run)).isEmpty) =
      isTrailing (rowOf pen.inCell command letters (cells ++ [run])) := by
  rw [rowOf_concat, fillCell_openCell]
  unfold isTrailing Element.appendChild
  cases (rowOf pen.inCell command letters cells).children with
  | nil => rfl
  | cons first more => cases more <;> rfl

include aligned

theorem finish_at : (Pass.at pen command letters table done cells run lines).finish command =
    let segments := done ++ [cells ++ [run]]
    let all := segments.map (rowOf pen.inCell command letters)
    dress command lines.kinds ((segments.map List.length).foldl max 0)
      (table.appendChildren (if all.getLast?.any isTrailing then all.dropLast else all)) := by
  have spaced : isSpaced command = true → letters.isEmpty = false := by
    intro spaced
    rw [List.isEmpty_eq_false_iff]
    apply aligned
    unfold isSpaced at spaced
    unfold isPaired
    simp_all
  unfold Pass.finish
  dsimp only [Pass.at]
  rw [widest_concat done cells run, fillCell_openCell, trailing_concat, ← fillCell_openCell,
    ← rowOf_concat, List.map_append (f := rowOf pen.inCell command letters), List.map_singleton,
    List.getLast?_concat, List.dropLast_concat, Option.any_some]
  have counted (table : Element) := dress_columns command lines.kinds table fun here =>
    show (if letters.isEmpty then 0 else ((done ++ [cells ++ [run]]).map List.length).foldl max 0) =
      ((done ++ [cells ++ [run]]).map List.length).foldl max 0 by
        rw [spaced here, if_neg Bool.false_ne_true]
  rw [counted]
  congr 1
  cases isTrailing (rowOf pen.inCell command letters (cells ++ [run])) with
  | true => rfl
  | false => exact Element.appendChildren_appendChildren table _ [_]

include known

/-- The pass makes the rows of the split body, and finds out the same about its lines and columns. -/
theorem writeTable_eq (nodes : List Node) :
    writeTable pen command letters nodes table =
      dress command (lineKinds (each pen.inCell nodes)) (columnsOf (rowsOf (each pen.inCell nodes)))
        (table.appendChildren (rows (isPaired command) letters (each pen.inCell nodes))) := by
  cases nodes with
  | nil =>
    rw [each_nil]
    exact congrArg (dress command [] 0) (Element.appendChildren_nil table).symm
  | cons first rest =>
    obtain ⟨done, cells, run, same, parts⟩ :=
      @foldl_at pen command letters table known aligned [] [] [] {} (first :: rest)
    rw [resume_start, List.nil_append] at parts
    have widths : (rowsOf (each pen.inCell (first :: rest))).map List.length =
        (segments (first :: rest)).map List.length := by
      rw [rowsOf_each _ (List.cons_ne_nil first rest), List.map_map]
      congr 1
      funext cells
      exact List.length_map _
    rw [List.foldl_cons, ← step_start known, ← List.foldl_cons] at same
    unfold writeTable columnsOf
    rw [same, finish_at aligned, parts, widths, lineKinds_each]
    dsimp only
    rw [rows_each]

end

/-! ## What the pass makes -/

/-- Without a fill a cell is aligned by the letter of its column. -/
theorem fillAlignment?_eq_none {items : List Item} (without : ∀ item ∈ items, item.role ≠ .fill) :
    fillAlignment? items = none := by
  have unfilled : true ∉ fills items := by
    intro filled
    obtain ⟨item, mem, told⟩ := List.mem_filterMap.mp filled
    have other := without item mem
    cases r : item.role <;> simp_all
  unfold fillAlignment?
  split
  · rename_i first _
    exact absurd (List.mem_of_head? first) unfilled
  · rename_i _ last
    exact absurd (List.mem_of_getLast? last) unfilled
  · rfl

theorem attributes_cell (ctx : Context) (paired : Bool) (letters : List Char) (column : Nat)
    {run : List Node} (without : ∀ node ∈ run, node.is "\\hfil" = false) :
    (cell paired letters column (each ctx run)).attributes =
      ((columnAlignment? letters column).map fun word => ("columnalign", word)).toList := by
  have unfilled : fillAlignment? (each ctx run) = none := by
    apply fillAlignment?_eq_none
    rw [each_eq_map]
    intro item listed
    obtain ⟨node, mem, rfl⟩ := List.mem_map.mp listed
    intro filled
    have named : node.token = "\\hfil" := (role_eq_iff node.token .fill).mp filled
    have other := without node mem
    rw [Node.is, named] at other
    cases other
  unfold cell
  rw [unfilled]
  rfl

theorem children_writeTable (pen : Pen) {command : String} {letters : List Char}
    (known : Columns.Known letters) (aligned : isPaired command = true → letters ≠ [])
    (nodes : List Node) (table : Element) :
    (writeTable pen command letters nodes table).children =
      let all := (segments nodes).map (rowOf pen.inCell command letters)
      table.children ++ if all.getLast?.any isTrailing then all.dropLast else all := by
  rw [writeTable_eq known aligned, children_dress, rows_each]
  rfl

/-- A pass over the body of a table makes the rows and cells that its nodes have when they are split at
the row ends and each row at the cell ends; this is what a table is filled with. A row that is one cell
in which nothing is drawn is left out at the end. Each cell holds what its nodes are drawn as one by
one, and without a fill it has the alignment of the letter of its column. -/
theorem writeTable_segments (pen : Pen) (command : String) (letters : List Char) (nodes : List Node)
    (table : Element) (known : Columns.Known letters)
    (aligned : isPaired command = true → letters ≠ []) :
    let ctx := pen.inCell
    let drawn := writeTable pen command letters nodes table
    let blank := ∃ run, (segments nodes).getLast? = some [run] ∧ oneByOne ctx (contentOf run) = []
    (∀ alignment, lettersFor command alignment = letters →
      fillIn command alignment (each ctx nodes) table = drawn) ∧
    ∃ attributes : Nat → List Node → Attributes,
      (∀ column run, (∀ node ∈ run, node.is "\\hfil" = false) →
        (letters = [] → attributes column run = []) ∧
        (letters ≠ [] → ∃ letter word, letters[column % letters.length]? = some letter ∧
          alignmentWord? letter = some word ∧
          attributes column run = [("columnalign", word)])) ∧
      let rows := (segments nodes).map fun cells =>
        Element.holding "mtr" (cells.mapIdx fun column run =>
          ⟨"mtd", attributes column run, "", lead command column ++ oneByOne ctx (contentOf run)⟩)
      (blank → drawn.children = table.children ++ rows.dropLast) ∧
      (¬ blank → drawn.children = table.children ++ rows) := by
  intro ctx drawn blank
  constructor
  · intro alignment same
    rw [fillIn_eq, same]
    exact (writeTable_eq known aligned nodes).symm
  · exists fun column run => (cell (isPaired command) letters column (each ctx run)).attributes
    constructor
    · intro column run without
      dsimp only
      rw [attributes_cell _ _ _ _ without]
      constructor
      · rintro rfl
        rfl
      · intro some
        obtain ⟨letter, word, found, meaning, given⟩ := Columns.alignment_letter known some column
        refine ⟨letter, word, found, meaning, ?_⟩
        rw [given]
        rfl
    · intro rows
      have split : (segments nodes).map (rowOf pen.inCell command letters) = rows :=
        List.map_congr_left fun cells inBody => rowOf_segments inBody
      have last := isTrailing_last pen.inCell command letters nodes
      have children := children_writeTable pen known aligned nodes table
      rw [split] at last
      dsimp only at children
      rw [split] at children
      constructor
      · intro empty
        rwa [if_pos (last.mpr empty)] at children
      · intro shown
        rwa [if_neg (mt last.mp shown)] at children

/-- Two rows of an alignment, the second of which has one cell. Behind its end is a blank one. -/
theorem writeTable_segments_align :
    let pen : Pen := ⟨.known, .plain, fun _ => none⟩
    let nodes : List Node :=
      [.leaf "1", .leaf "&", .leaf "2", .leaf "3", .leaf "\\\\", .leaf "4", .leaf "\\cr"]
    let table := Element.ofTag "mtable"
    let drawn := writeTable pen "\\align" ['r', 'l'] nodes table
    Columns.Known ['r', 'l'] ∧ fillIn "\\align" [] (each pen.inCell nodes) table = drawn ∧
      drawn.children = [
        .holding "mtr" [⟨"mtd", [("columnalign", "right")], "", [.ofText "mn" "1"]⟩,
          ⟨"mtd", [("columnalign", "left")], "",
            [.ofTag "mi", .ofText "mn" "2", .ofText "mn" "3"]⟩],
        .holding "mtr" [⟨"mtd", [("columnalign", "right")], "", [.ofText "mn" "4"]⟩]] := by
  intro pen nodes table drawn
  have known : Columns.Known ['r', 'l'] := by decide
  obtain ⟨same, attributes, told, blank, -⟩ :=
    writeTable_segments pen "\\align" ['r', 'l'] nodes table known fun _ => List.cons_ne_nil _ _
  have right (run : List Node) (without : ∀ node ∈ run, node.is "\\hfil" = false) :
      attributes 0 run = [("columnalign", "right")] := by
    obtain ⟨_, _, found, meaning, given⟩ := (told 0 run without).2 (List.cons_ne_nil _ _)
    cases found
    cases meaning
    exact given
  have left (run : List Node) (without : ∀ node ∈ run, node.is "\\hfil" = false) :
      attributes 1 run = [("columnalign", "left")] := by
    obtain ⟨_, _, found, meaning, given⟩ := (told 1 run without).2 (List.cons_ne_nil _ _)
    cases found
    cases meaning
    exact given
  refine ⟨known, same [] rfl, ?_⟩
  rw [blank ⟨[], by decide, rfl⟩]
  let shown (column : Nat) (run : List Node) : List Element :=
    lead "\\align" column ++ oneByOne pen.inCell run
  show [Element.holding "mtr" [⟨"mtd", attributes 0 [.leaf "1"], "", shown 0 [.leaf "1"]⟩,
      ⟨"mtd", attributes 1 [.leaf "2", .leaf "3"], "", shown 1 [.leaf "2", .leaf "3"]⟩],
    .holding "mtr" [⟨"mtd", attributes 0 [.leaf "4"], "", shown 0 [.leaf "4"]⟩]] = _
  rw [right _ (by decide), left _ (by decide), right _ (by decide)]
  decide +kernel

end Draw

end FormulaMarkup

import FormulaMarkup.Proofs.Render.Segments

/-!
Fills. A fill at one end of a cell, and only there, moves what the cell holds to the other side; else the
cell is aligned like its column. What counts for this are the fills and the contents of the cell, but no
groups, so that a group at an end of a cell does not keep a fill from being the first or the last one there.
Main statement: the alignment of every cell of a table, and where the groups make a difference to it.
-/
namespace FormulaMarkup

namespace Node

def isLine (node : Node) : Bool := node.is "\\hline" || node.is "\\hdashline"

def isFill (node : Node) : Bool := node.is "\\hfil"

def isGroup (node : Node) : Bool := node.is Word.braces

end Node

namespace Table

/-! ## Sides -/

/-- The nodes of a cell among which a fill may be the first or the last one. -/
def standing (run : List Node) : List Node := run.filter fun node => !node.isLine

def ungrouped (nodes : List Node) : List Node := nodes.filter fun node => !node.isGroup

def startsFilled (nodes : List Node) : Bool := nodes.head?.any Node.isFill

def endsFilled (nodes : List Node) : Bool := nodes.getLast?.any Node.isFill

/-- The side that the content goes to among nodes with a fill at one end. -/
def side? (nodes : List Node) : Option String :=
  match startsFilled nodes, endsFilled nodes with
  | true, false => some "right"
  | false, true => some "left"
  | _, _ => none

theorem startsFilled_ungrouped {nodes : List Node} (filled : startsFilled nodes = true) :
    startsFilled (ungrouped nodes) = true := by
  cases nodes with
  | nil => cases filled
  | cons first rest =>
    have named : first.token = "\\hfil" := beq_iff_eq.mp filled
    have kept : first.isGroup = false := by simp [Node.isGroup, Node.is, named, Word.braces]
    simpa [startsFilled, ungrouped, kept] using filled

theorem endsFilled_eq (nodes : List Node) : endsFilled nodes = startsFilled nodes.reverse := by
  rw [startsFilled, List.head?_reverse, endsFilled]

theorem endsFilled_ungrouped {nodes : List Node} (filled : endsFilled nodes = true) :
    endsFilled (ungrouped nodes) = true := by
  rw [endsFilled_eq] at filled ⊢
  have turned : (ungrouped nodes).reverse = ungrouped nodes.reverse := List.filter_reverse.symm
  rw [turned]
  exact startsFilled_ungrouped filled

/-- Groups make no difference just where a fill stands at one end without them if one does with them. -/
theorem side?_ungrouped_iff (nodes : List Node) : side? (ungrouped nodes) = side? nodes ↔
    (startsFilled (ungrouped nodes) = endsFilled (ungrouped nodes) ↔
      startsFilled nodes = endsFilled nodes) := by
  have first := @startsFilled_ungrouped nodes
  have last := @endsFilled_ungrouped nodes
  unfold side?
  generalize startsFilled (ungrouped nodes) = start, endsFilled (ungrouped nodes) = stop,
    startsFilled nodes = start', endsFilled nodes = stop' at first last ⊢
  revert start stop start' stop'
  decide

/-! ## Cells -/

/-- What a node of a cell says about fills. -/
theorem fills_one {node : Node} (inRow : node.endsRow = false) (inCell : node.endsCell = false)
    (drawn : List Element) :
    fills [(node.token, drawn)] = (ungrouped (standing [node])).map Node.isFill := by
  rw [endsRow_eq, decide_eq_false_iff_not] at inRow
  rw [endsCell_eq, decide_eq_false_iff_not] at inCell
  have has := role_has node.token
  unfold fills Item.role standing ungrouped Node.isLine Node.isGroup Node.isFill Node.is
  rw [List.filterMap_cons]
  dsimp only
  generalize role node.token = r at has inRow inCell ⊢
  cases r with
  | cellEnd => exact absurd rfl inCell
  | rowEnd => exact absurd rfl inRow
  | group => simp [show node.token = Word.braces from has]
  | line kind => rcases has with ⟨named, -⟩ | ⟨named, -⟩ <;> simp [named]
  | fill => simp [show node.token = "\\hfil" from has, Word.braces]
  | content => simp_all [Role.Has]

theorem fills_each (ctx : Context) {run : List Node}
    (inside : ∀ node ∈ run, node.endsRow = false ∧ node.endsCell = false) :
    fills (Draw.each ctx run) = (ungrouped (standing run)).map Node.isFill := by
  rw [Draw.each_eq_map]
  induction run with
  | nil => rfl
  | cons first rest ih =>
    obtain ⟨⟨inRow, inCell⟩, behind⟩ := List.forall_mem_cons.mp inside
    have here := fills_one inRow inCell ((Draw.node ctx first).before [])
    have others := ih behind
    unfold fills standing ungrouped at here others ⊢
    rw [List.map_cons, ← List.singleton_append, List.filterMap_append, here, others,
      ← List.singleton_append (l := rest), List.filter_append, List.filter_append, List.map_append]

theorem fillAlignment?_each (ctx : Context) {run : List Node}
    (inside : ∀ node ∈ run, node.endsRow = false ∧ node.endsCell = false) :
    fillAlignment? (Draw.each ctx run) = side? (ungrouped (standing run)) := by
  unfold fillAlignment? side? startsFilled endsFilled
  rw [fills_each ctx inside, List.head?_map, List.getLast?_map]
  rcases List.eq_nil_or_concat (ungrouped (standing run)) with empty | ⟨front, last, split⟩
  · rw [empty]
    rfl
  · obtain ⟨first, starts⟩ : ∃ first, (front ++ [last]).head? = some first := by
      cases front <;> exact ⟨_, rfl⟩
    rw [split, List.concat_eq_append, List.getLast?_concat, starts]
    simp only [Option.map_some, Option.any_some]
    cases first.isFill <;> cases last.isFill <;> rfl

theorem attribute?_cell (paired : Bool) (letters : List Char) (column : Nat) (items : List Item) :
    (cell paired letters column items).attribute? "columnalign" =
      (fillAlignment? items).or (columnAlignment? letters column) := by
  unfold cell
  dsimp only
  cases (fillAlignment? items).or (columnAlignment? letters column) with
  | none => rfl
  | some word => rfl

end Table

open Table

namespace Draw

/-- Every cell of a table is aligned to the side where the fills leave room if the fills and the contents of
the cell, groups left out, have a fill at one end, and like its column else. That is the side for the whole
cell, groups included, if and only if a fill is at just one end with the groups when it is without them. -/
theorem fillIn_alignment (ctx : Context) (command : String) (alignment : List Char) (nodes : List Node)
    (table : Element) :
    ∃ rows, (fillIn command alignment (each ctx nodes) table).children = table.children ++ rows ∧
      (segments nodes).length ≤ rows.length + 1 ∧
      ∀ (i : Nat) (row : Element), rows[i]? = some row → ∃ cells, (segments nodes)[i]? = some cells ∧
        row.children.length = cells.length ∧
        ∀ (j : Nat) (run : List Node), cells[j]? = some run → ∃ cell, row.children[j]? = some cell ∧
          let all := standing run
          let counted := ungrouped all
          let column := columnAlignment? (lettersFor command alignment) j
          cell.attribute? "columnalign" = (side? counted).or column ∧
          ((startsFilled counted = endsFilled counted ↔ startsFilled all = endsFilled all) ↔
            side? counted = side? all) := by
  obtain ⟨first, most⟩ := rows_prefix ctx command (lettersFor command alignment) nodes
  refine ⟨_, children_fillIn command alignment (each ctx nodes) table, most, fun i row found => ?_⟩
  obtain ⟨within, rfl⟩ := List.getElem?_eq_some_iff.mp found
  have listed := List.prefix_iff_getElem?.mp first i within
  rw [List.getElem?_map, Option.map_eq_some_iff] at listed
  obtain ⟨cells, inBody, drawn⟩ := listed
  rw [← drawn]
  refine ⟨cells, inBody, by simp [rowOf, row, Element.holding], fun j run here => ?_⟩
  refine ⟨cell (isPaired command) (lettersFor command alignment) j (each ctx run), ?_, ?_, ?_⟩
  · simp [rowOf, row, Element.holding, here]
  · have inside : ∀ node ∈ run, node.endsRow = false ∧ node.endsCell = false := fun node inCell =>
      mem_segments (List.mem_of_getElem? inBody) (List.mem_of_getElem? here) inCell
    rw [attribute?_cell, fillAlignment?_each ctx inside]
  · exact (side?_ungrouped_iff (standing run)).symm

/-- A fill in front of a group and a number, which moves them to the right of their column. -/
theorem fillIn_alignment_right :
    let ctx : Context := ⟨.known, .plain, false, fun _ => none⟩
    let run : List Node := [.leaf "\\hfil", .braces [.leaf "1"], .leaf "2"]
    let body := each ctx (run ++ [.leaf "&", .leaf "3", .leaf "\\\\", .leaf "4"])
    ∃ row rows cell, (fillIn "\\array" ['l', 'c'] body (Element.ofTag "mtable")).children = row :: rows ∧
      row.children[0]? = some cell ∧ side? (standing run) = some "right" ∧
      cell.attribute? "columnalign" = some "right" := by
  intro ctx run body
  let nodes := run ++ [.leaf "&", .leaf "3", .leaf "\\\\", .leaf "4"]
  obtain ⟨rows, children, most, aligned⟩ :=
    fillIn_alignment ctx "\\array" ['l', 'c'] nodes (Element.ofTag "mtable")
  have two : (segments nodes).length = 2 := rfl
  obtain ⟨row, more, rfl⟩ := List.exists_cons_of_length_pos (show 0 < rows.length by omega)
  obtain ⟨cells, inBody, -, cell⟩ := aligned 0 row rfl
  cases inBody
  obtain ⟨cell, inRow, given, -⟩ := cell 0 run rfl
  exact ⟨row, more, cell, children, inRow, by decide, given⟩

/-- A group in front of a fill does not count, so that the fill is the first node as well as the last one and
the cell is not aligned to the left. -/
theorem group_hides_fill :
    let run : List Node := [.braces [.leaf "a"], .leaf "\\hfil"]
    let source := "\\begin\x7bmatrix\x7d\x7ba\x7d\\hfil\\end\x7bmatrix\x7d"
    side? (standing run) = some "left" ∧
      Converter.parse {} source = .ok [.withChildren "\\matrix" run] ∧
      Converter.toElement {} source .inline =
        .ok ⟨"math", [("display", "inline")], "", [.holding "mrow" [.holding "mtable" [.holding "mtr" [
          .holding "mtd" [.holding "mrow" [.ofText "mi" "a"]]]]]]⟩ := by
  intro run source
  refine ⟨by decide, ?_, ?_⟩
  · decide +kernel
  · decide +kernel

end Draw

end FormulaMarkup

import FormulaMarkup.Converter
import FormulaMarkup.Proofs.Render.Composition
import FormulaMarkup.Proofs.Render.Fits
import FormulaMarkup.Proofs.Render.Skewed

/-!
The rows and cells of a table, told by the nodes of its body: the body is split at its row ends and each
row at its cell ends. Each cell holds what its nodes are drawn as one by one, so that a switch in a cell
has no effect. Main statement: where this differs from what the nodes of the cell are drawn as together.
-/
namespace FormulaMarkup

/-! ## Segments -/

namespace Node

def endsRow (node : Node) : Bool := node.is "\\\\" || node.is "\\cr"

def endsCell (node : Node) : Bool := node.is "&"

/-- Whether a node says something about lines or alignment, and is not drawn in its cell. -/
def isMark (node : Node) : Bool := node.is "\\hline" || node.is "\\hdashline" || node.is "\\hfil"

end Node

namespace Table

/-- The nodes of the cells of the rows of a body. -/
def segments (nodes : List Node) : List (List (List Node)) :=
  (nodes.splitOnP Node.endsRow).map (List.splitOnP Node.endsCell)

/-- The tokens of a role. Those that have no other role are content. -/
def Role.Has (token : String) : Role → Prop
  | .group => token = Word.braces
  | .cellEnd => token = "&"
  | .rowEnd => token = "\\\\" ∨ token = "\\cr"
  | .line kind => token = "\\hline" ∧ kind = "solid" ∨ token = "\\hdashline" ∧ kind = "dashed"
  | .fill => token = "\\hfil"
  | .content => token ∉ [Word.braces, "&", "\\\\", "\\cr", "\\hline", "\\hdashline", "\\hfil"]

theorem role_has (token : String) : (role token).Has token := by
  unfold role
  repeat' split
  all_goals simp_all [Role.Has]

theorem role_eq_iff (token : String) (r : Role) : role token = r ↔ r.Has token := by
  constructor
  · rintro rfl
    exact role_has token
  · intro has
    cases r with
    | group => rw [has]; rfl
    | cellEnd => rw [has]; rfl
    | rowEnd => rcases has with rfl | rfl <;> rfl
    | line kind => rcases has with ⟨rfl, rfl⟩ | ⟨rfl, rfl⟩ <;> rfl
    | fill => rw [has]; rfl
    | content =>
      unfold Role.Has at has
      simp only [List.mem_cons, List.not_mem_nil, not_or] at has
      simp [role, has]

section

variable (node : Node)

theorem endsRow_eq : node.endsRow = decide (role node.token = .rowEnd) := by
  simp [Node.endsRow, Node.is, role_eq_iff, Role.Has, Bool.decide_or, beq_eq_decide]

theorem endsCell_eq : node.endsCell = decide (role node.token = .cellEnd) := by
  simp [Node.endsCell, Node.is, role_eq_iff, Role.Has, beq_eq_decide]

theorem isMark_eq : node.isMark =
    match role node.token with
    | .line _ | .fill => true
    | _ => false := by
  have has := role_has node.token
  unfold Node.isMark Node.is
  generalize role node.token = r at has
  cases r with
  | line kind => rcases has with ⟨named, -⟩ | ⟨named, -⟩ <;> simp [named]
  | rowEnd => rcases has with named | named <;> simp [named]
  | content => simp_all [Role.Has]
  | group => simp [show node.token = Word.braces from has, Word.braces]
  | cellEnd => simp [show node.token = "&" from has]
  | fill => simp [show node.token = "\\hfil" from has]

/-- What stands in a cell is drawn if it is no mark. -/
theorem isDrawn_eq (inRow : node.endsRow = false) (inCell : node.endsCell = false)
    (drawn : List Element) : Item.isDrawn (node.token, drawn) = !node.isMark := by
  rw [endsRow_eq, decide_eq_false_iff_not] at inRow
  rw [endsCell_eq, decide_eq_false_iff_not] at inCell
  rw [isMark_eq]
  unfold Item.isDrawn Item.role
  cases r : role node.token with
  | cellEnd => exact absurd r inCell
  | rowEnd => exact absurd r inRow
  | group => rfl
  | line kind => rfl
  | fill => rfl
  | content => rfl

end

/-- A mapped list is split where the list is. -/
theorem splitOnP_map {α β : Type} (f : α → β) (p : β → Bool) (items : List α) :
    (items.map f).splitOnP p = (items.splitOnP fun item => p (f item)).map (List.map f) := by
  induction items with
  | nil => rfl
  | cons first rest ih =>
    obtain ⟨part, parts, split⟩ :=
      List.exists_cons_of_ne_nil (List.splitOnP_ne_nil (fun item => p (f item)) rest)
    rw [List.map_cons, List.splitOnP_cons_eq_if_modifyHead, List.splitOnP_cons_eq_if_modifyHead, ih,
      split]
    cases p (f first) <;> rfl

theorem rowsOf_each (ctx : Context) {nodes : List Node} (some : nodes ≠ []) :
    rowsOf (Draw.each ctx nodes) = (segments nodes).map (List.map (Draw.each ctx)) := by
  let item (node : Node) : Item := (node.token, (Draw.node ctx node).before [])
  have items : Draw.each ctx = List.map item := funext (Draw.each_eq_map ctx)
  have rowEnds : (fun node => decide ((item node).role = .rowEnd)) = Node.endsRow :=
    funext fun node => (endsRow_eq node).symm
  have cellEnds : (fun node => decide ((item node).role = .cellEnd)) = Node.endsCell :=
    funext fun node => (endsCell_eq node).symm
  have body : (nodes.map item).isEmpty = false := by
    rw [List.isEmpty_map]
    exact List.isEmpty_eq_false_iff.mpr some
  unfold rowsOf segments
  rw [items, body, if_neg Bool.false_ne_true, splitOnP_map, rowEnds, List.map_map, List.map_map]
  congr 1
  funext line
  rw [Function.comp_apply, Function.comp_apply, splitOnP_map, cellEnds]

/-- The lines behind some nodes of a body. -/
def Lines.over (lines : Lines) (nodes : List Node) : Lines :=
  nodes.foldl (fun lines node => lines.after (node.token, [])) lines

theorem over_cons (lines : Lines) (first : Node) (rest : List Node) :
    lines.over (first :: rest) = (lines.after (first.token, [])).over rest := rfl

theorem lineKinds_each (ctx : Context) (nodes : List Node) :
    lineKinds (Draw.each ctx nodes) = (Lines.over {} nodes).kinds := by
  rw [Draw.each_eq_map, lineKinds, List.foldl_map]
  rfl

end Table

namespace Draw

open Table

theorem each_nil (ctx : Context) : each ctx [] = [] := each_eq_map ctx []

/-- The row for the nodes of its cells. -/
def rowOf (ctx : Context) (command : String) (letters : List Char)
    (cells : List (List Node)) : Element :=
  row (isPaired command) letters (cells.map (each ctx))

/-- The rows of a body, told by its segments. A body without nodes has one empty cell, which is not
shown. -/
theorem rows_each (ctx : Context) (command : String) (letters : List Char) (nodes : List Node) :
    rows (isPaired command) letters (each ctx nodes) =
      let all := (segments nodes).map (rowOf ctx command letters)
      if all.getLast?.any isTrailing then all.dropLast else all := by
  cases nodes with
  | nil =>
    simp only [segments, List.splitOnP_nil, List.map_cons, List.map_nil, rowOf, each_nil]
    simp [rows, rowsOf, isTrailing, row, cell, Element.holding, Element.isEmpty]
  | cons first rest =>
    unfold rows
    rw [rowsOf_each ctx (List.cons_ne_nil first rest), List.map_map]
    rfl

/-! ## What the cells hold -/

/-- What stands at the start of a cell: an empty identifier in the second one of a pair. -/
def lead (command : String) (column : Nat) : List Element :=
  if isPaired command && column % 2 = 1 then [Element.ofTag "mi"] else []

/-- The nodes of a cell that are drawn in it. -/
def contentOf (run : List Node) : List Node := run.filter fun node => !node.isMark

/-- What nodes are drawn as one by one, each as if it were alone. -/
def oneByOne (ctx : Context) (nodes : List Node) : List Element :=
  nodes.flatMap fun node => group ctx [] [node]

/-- The nodes of a cell end neither a cell nor a row. -/
theorem mem_segments {nodes : List Node} {cells : List (List Node)} {run : List Node} {node : Node}
    (inBody : cells ∈ segments nodes) (inRow : run ∈ cells) (inCell : node ∈ run) :
    node.endsRow = false ∧ node.endsCell = false := by
  obtain ⟨line, listed, rfl⟩ := List.mem_map.mp inBody
  obtain ⟨inLine, notCell⟩ := (mem_part _).mp ⟨run, inRow, inCell⟩
  exact ⟨((mem_part _).mp ⟨line, listed, inLine⟩).2, notCell⟩

theorem cell_each (ctx : Context) (command : String) (letters : List Char) (column : Nat)
    {run : List Node} (inside : ∀ node ∈ run, node.endsRow = false ∧ node.endsCell = false) :
    cell (isPaired command) letters column (each ctx run) =
      ⟨"mtd", (cell (isPaired command) letters column (each ctx run)).attributes, "",
        lead command column ++ oneByOne ctx (contentOf run)⟩ := by
  have shown : ((each ctx run).filter Item.isDrawn).flatMap (·.2) = oneByOne ctx (contentOf run) := by
    unfold oneByOne contentOf
    rw [each_eq_map, List.filter_map, List.flatMap_map]
    simp only [group_one]
    congr 1
    refine List.filter_congr fun node mem => ?_
    exact isDrawn_eq node (inside node mem).1 (inside node mem).2 _
  rw [← shown]
  rfl

section

variable {ctx : Context} {command : String} {letters : List Char} {nodes : List Node}
variable {cells : List (List Node)} (inBody : cells ∈ segments nodes)

include inBody

theorem rowOf_segments : rowOf ctx command letters cells =
    Element.holding "mtr" (cells.mapIdx fun column run =>
      ⟨"mtd", (cell (isPaired command) letters column (each ctx run)).attributes, "",
        lead command column ++ oneByOne ctx (contentOf run)⟩) := by
  unfold rowOf row
  congr 1
  apply List.ext_getElem
  · simp
  · intro column _ within
    rw [List.length_mapIdx] at within
    rw [List.getElem_mapIdx, List.getElem_mapIdx, List.getElem_map]
    exact cell_each _ command letters column fun node inCell =>
      mem_segments inBody (List.getElem_mem within) inCell

/-- The row that is left out is one cell in which nothing is drawn. -/
theorem isTrailing_rowOf : isTrailing (rowOf ctx command letters cells) = true ↔
    ∃ run, cells = [run] ∧ oneByOne ctx (contentOf run) = [] := by
  rw [rowOf_segments inBody]
  rcases cells with _ | ⟨first, _ | ⟨second, more⟩⟩
  · simp [isTrailing, Element.holding]
  · simp [isTrailing, Element.holding, Element.isEmpty, lead]
  · simp [isTrailing, Element.holding]

end

theorem isTrailing_last (ctx : Context) (command : String) (letters : List Char) (nodes : List Node) :
    ((segments nodes).map (rowOf ctx command letters)).getLast?.any isTrailing = true ↔
      ∃ run, (segments nodes).getLast? = some [run] ∧ oneByOne ctx (contentOf run) = [] := by
  rw [List.getLast?_map, Option.any_map, Option.any_eq_true]
  constructor
  · rintro ⟨cells, found, trailing⟩
    obtain ⟨run, rfl, empty⟩ := (isTrailing_rowOf (List.mem_of_getLast? found)).mp trailing
    exact ⟨run, found, empty⟩
  · rintro ⟨run, found, empty⟩
    exact ⟨[run], found, (isTrailing_rowOf (List.mem_of_getLast? found)).mpr ⟨run, rfl, empty⟩⟩

/-! ## Cells and whole runs -/

theorem oneByOne_cons (ctx : Context) (first : Node) (rest : List Node) :
    oneByOne ctx (first :: rest) = (Draw.node ctx first).before [] ++ oneByOne ctx rest := by
  unfold oneByOne
  rw [List.flatMap_cons, group_one]

/-- Whether the switches among nodes make no difference: the first font that is set is that of the
nodes behind it anyway, or nothing is drawn behind the first style. -/
def Inert (ctx : Context) : List Node → Prop
  | [] => True
  | first :: rest =>
    match first.font?, Style.switches.lookup first.token with
    | some font, _ => group { ctx with font } [] rest = oneByOne ctx rest
    | none, some attributes =>
      group (ctx.within (.shell "mstyle" attributes)) [] rest = [] ∧ oneByOne ctx rest = []
    | none, none => Inert ctx rest

/-- Nodes are drawn together as they are one by one where no switch makes a difference. -/
theorem group_eq_oneByOne_iff (ctx : Context) (nodes : List Node) :
    group ctx [] nodes = oneByOne ctx nodes ↔ Inert ctx nodes := by
  induction nodes with
  | nil => simp [group_nil, oneByOne, Inert]
  | cons first rest ih =>
    rw [group_cons, oneByOne_cons, Inert]
    rcases node_cases ctx first with
      ⟨font, set, drawn⟩ | ⟨attributes, found, set, drawn⟩ | ⟨list, unswitched, set, drawn⟩
    · rw [drawn, set]
      rfl
    · rw [drawn, set, found]
      simp [Drawing.before, Drawing.styled, Element.appendChildren, Element.shell,
        eq_comm (a := ([] : List Element))]
    · have other : Style.switches.lookup first.token = none := by
        simpa [Node.isSwitch] using unswitched
      rw [drawn, set, other, ← ih]
      dsimp only [Drawing.before]
      rw [List.append_nil, List.append_right_inj]

/-- The rows of a body are those of its segments, except for the last one perhaps. -/
theorem rows_prefix (ctx : Context) (command : String) (letters : List Char) (nodes : List Node) :
    rows (isPaired command) letters (each ctx nodes) <+:
        (segments nodes).map (rowOf ctx command letters) ∧
      (segments nodes).length ≤ (rows (isPaired command) letters (each ctx nodes)).length + 1 := by
  rw [rows_each]
  dsimp only
  split
  · refine ⟨List.dropLast_prefix _, ?_⟩
    rw [List.length_dropLast, List.length_map]
    omega
  · refine ⟨List.prefix_refl _, ?_⟩
    rw [List.length_map]
    omega

/-- The cells of a table hold what their nodes are drawn as one by one, behind the identifier that the
second one of a pair begins with. This is what the nodes are drawn as together just where no switch among
them makes a difference, so that a switch in a cell has no effect on what follows it there. -/
theorem fillIn_cells (ctx : Context) (command : String) (alignment : List Char) (nodes : List Node)
    (table : Element) :
    ∃ rows, (fillIn command alignment (each ctx nodes) table).children = table.children ++ rows ∧
      (segments nodes).length ≤ rows.length + 1 ∧
      ∀ (i : Nat) (row : Element), rows[i]? = some row → ∃ cells, (segments nodes)[i]? = some cells ∧
        row.children.length = cells.length ∧
        ∀ (j : Nat) (run : List Node), cells[j]? = some run → ∃ cell, row.children[j]? = some cell ∧
          cell.children = lead command j ++ oneByOne ctx (contentOf run) ∧
          (cell.children = lead command j ++ group ctx [] (contentOf run) ↔
            Inert ctx (contentOf run)) := by
  obtain ⟨first, most⟩ := rows_prefix ctx command (lettersFor command alignment) nodes
  refine ⟨_, children_fillIn command alignment (each ctx nodes) table, most, fun i row found => ?_⟩
  obtain ⟨within, rfl⟩ := List.getElem?_eq_some_iff.mp found
  have listed := List.prefix_iff_getElem?.mp first i within
  rw [List.getElem?_map, Option.map_eq_some_iff] at listed
  obtain ⟨cells, inBody, drawn⟩ := listed
  rw [← drawn, rowOf_segments (List.mem_of_getElem? inBody)]
  refine ⟨cells, inBody, List.length_mapIdx, fun j run here => ?_⟩
  rw [Element.holding, List.getElem?_mapIdx, here]
  refine ⟨_, rfl, rfl, ?_⟩
  rw [← group_eq_oneByOne_iff, List.append_right_inj, eq_comm]

/-- A size in a cell, behind which a number is drawn: the number is not of that size. -/
theorem fillIn_cells_size :
    let ctx : Context := ⟨.known, .plain, false, fun _ => none⟩
    let run : List Node := [.leaf "\\large", .leaf "1"]
    let body := each ctx (run ++ [.leaf "\\\\", .leaf "2"])
    ∃ row rows cell, (fillIn "\\matrix" [] body (Element.ofTag "mtable")).children = row :: rows ∧
      row.children[0]? = some cell ∧
      cell.children = [.shell "mstyle" [("mathsize", "1.2em")], .ofText "mn" "1"] ∧
      cell.children ≠ group ctx [] run ∧ ¬ Inert ctx (contentOf run) := by
  intro ctx run body
  obtain ⟨rows, children, most, held⟩ :=
    fillIn_cells ctx "\\matrix" [] (run ++ [.leaf "\\\\", .leaf "2"]) (Element.ofTag "mtable")
  have two : (segments (run ++ [.leaf "\\\\", .leaf "2"])).length = 2 := rfl
  obtain ⟨row, more, rfl⟩ := List.exists_cons_of_length_pos (show 0 < rows.length by omega)
  obtain ⟨cells, inBody, -, cell⟩ := held 0 row rfl
  cases inBody
  obtain ⟨cell, inRow, drawn, whole⟩ := cell 0 run rfl
  have apart : cell.children ≠ group ctx [] run := by
    rw [drawn]
    decide +kernel
  refine ⟨row, more, cell, children, inRow, ?_, apart, fun inert => apart (whole.mpr inert)⟩
  rw [drawn]
  decide +kernel

/-- A size in a cell of a matrix stands alone, in front of what it is a size of. -/
theorem matrix_cell_loses_size :
    Converter.parse {} "\\begin\x7bmatrix\x7d\\large 1\\end\x7bmatrix\x7d" =
        .ok [.withChildren "\\matrix" [.leaf "\\large", .leaf "1"]] ∧
      Converter.toElement {} "\\begin\x7bmatrix\x7d\\large 1\\end\x7bmatrix\x7d" .inline =
        .ok ⟨"math", [("display", "inline")], "", [.holding "mrow" [.holding "mtable" [.holding "mtr" [
          .holding "mtd" [.shell "mstyle" [("mathsize", "1.2em")], .ofText "mn" "1"]]]]]⟩ ∧
      group ⟨.known, .plain, false, fun _ => none⟩ [] [.leaf "\\large", .leaf "1"] =
        [⟨"mstyle", [("mathsize", "1.2em")], "", [.ofText "mn" "1"]⟩] := by
  refine ⟨?_, ?_, ?_⟩
  · decide +kernel
  · decide +kernel
  · decide +kernel

end Draw

end FormulaMarkup

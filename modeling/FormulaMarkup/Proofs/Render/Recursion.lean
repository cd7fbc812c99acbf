import FormulaMarkup.Proofs.Parsing.RawTexts
import FormulaMarkup.Proofs.Render.Boxes
import FormulaMarkup.Proofs.Render.Skewed
import FormulaMarkup.Render.Source
import Mathlib.Logic.Relation
import Mathlib.Order.WellFounded

/-!
Drawing terminates. The calls of the drawing functions are given as a relation: a list of nodes is
drawn node by node, a skewed accent draws a new node that is larger than its argument, and a box
parses the formulas in its text and draws what it gets. The relation is well founded, as a call has
less of three things, of which the first that changes counts: the length of the texts of boxes, the
number of skews, and the size of the trees. Main statement: the functions that recur along this
relation draw what `group` and `source` draw.
-/
namespace FormulaMarkup

/-! ## Counts over trees -/

namespace Node

mutual

/-- Puts together the counts of all nodes of a tree. -/
def gather (op : Nat → Nat → Nat) (count : Node → Nat) : Node → Nat
  | ⟨token, none, delimiter, alignment, text, attributes, modifier⟩ =>
    count ⟨token, none, delimiter, alignment, text, attributes, modifier⟩
  | ⟨token, some children, delimiter, alignment, text, attributes, modifier⟩ =>
    op (count ⟨token, some children, delimiter, alignment, text, attributes, modifier⟩)
      (gatherAll op count children)

def gatherAll (op : Nat → Nat → Nat) (count : Node → Nat) : List Node → Nat
  | [] => 0
  | first :: rest => op (gather op count first) (gatherAll op count rest)

end

/-- A way to put counts together that loses none of them. -/
structure Gathers (op : Nat → Nat → Nat) : Prop where
  zero_left : ∀ n, op 0 n = n
  zero_right : ∀ n, op n 0 = n
  le_left : ∀ m n, m ≤ op m n
  le_right : ∀ m n, n ≤ op m n

theorem gathers_add : Gathers (· + ·) :=
  ⟨Nat.zero_add, Nat.add_zero, Nat.le_add_right, fun m n => Nat.le_add_left n m⟩

theorem gathers_max : Gathers max := ⟨Nat.zero_max, Nat.max_zero, Nat.le_max_left, Nat.le_max_right⟩

section

variable {op : Nat → Nat → Nat} (gathers : Gathers op) (count : Node → Nat)

theorem gatherAll_nil (op : Nat → Nat → Nat) (count : Node → Nat) : gatherAll op count [] = 0 := by
  rw [gatherAll]

theorem gatherAll_cons (op : Nat → Nat → Nat) (count : Node → Nat) (first : Node) (rest : List Node) :
    gatherAll op count (first :: rest) = op (gather op count first) (gatherAll op count rest) := by
  rw [gatherAll]

include gathers

theorem gather_eq (node : Node) :
    gather op count node = op (count node) (gatherAll op count node.childList) := by
  obtain ⟨token, children, delimiter, alignment, text, attributes, modifier⟩ := node
  cases children with
  | none =>
    rw [gather, childList, Option.getD_none, gatherAll_nil, gathers.zero_right]
  | some children =>
    rw [gather]
    rfl

theorem gather_one (node : Node) : gatherAll op count [node] = gather op count node := by
  rw [gatherAll_cons, gatherAll_nil, gathers.zero_right]

theorem gather_le {node : Node} {nodes : List Node} (mem : node ∈ nodes) :
    gather op count node ≤ gatherAll op count nodes := by
  induction nodes with
  | nil => cases mem
  | cons first rest ih =>
    rw [gatherAll_cons]
    rcases List.mem_cons.mp mem with rfl | mem
    · exact gathers.le_left _ _
    · exact (ih mem).trans (gathers.le_right _ _)

theorem gatherAll_children_le (node : Node) :
    gatherAll op count node.childList ≤ gather op count node := by
  rw [gather_eq gathers]
  exact gathers.le_right _ _

/-- A node at the end that counts for nothing. -/
theorem gatherAll_concat {last : Node} (none : gather op count last = 0) (nodes : List Node) :
    gatherAll op count (nodes ++ [last]) = gatherAll op count nodes := by
  induction nodes with
  | nil => rw [List.nil_append, gather_one gathers, none, gatherAll_nil]
  | cons first rest ih => rw [List.cons_append, gatherAll_cons, gatherAll_cons, ih]

end

theorem gatherAll_max_le {count : Node → Nat} {nodes : List Node} {bound : Nat}
    (all : ∀ node ∈ nodes, gather max count node ≤ bound) : gatherAll max count nodes ≤ bound := by
  induction nodes with
  | nil =>
    rw [gatherAll_nil]
    exact Nat.zero_le _
  | cons first rest ih =>
    obtain ⟨head, tail⟩ := List.forall_mem_cons.mp all
    rw [gatherAll_cons]
    exact Nat.max_le.mpr ⟨head, ih tail⟩

/-- The length of the text of a box, with one added. -/
def boxLength (node : Node) : Nat :=
  if node.token = "\\hbox" then node.text.elim 0 (·.length + 1) else 0

def isSkew (node : Node) : Nat := if node.token = "\\skew" then 1 else 0

/-- A kern adds nothing to a count of boxes or skews. -/
theorem gather_kerned {op : Nat → Nat → Nat} (gathers : Gathers op) {count : Node → Nat}
    (named : ∀ node node' : Node, node.token = node'.token → node.text = node'.text →
      count node = count node')
    (braces : count (.braces []) = 0) (alone : count (.leaf "\\mkern") = 0) (target skew : Node) :
    gather op count (kerned target skew) = gather op count target := by
  have group (nodes : List Node) :
      gather op count (.braces nodes) = gatherAll op count nodes := by
    have none : count (.braces nodes) = 0 := (named (.braces nodes) (.braces []) rfl rfl).trans braces
    rw [gather_eq gathers, none, gathers.zero_left]
    rfl
  have last : gather op count (kern skew) = 0 := by
    have same : count (kern skew) = count (.leaf "\\mkern") := named _ _ rfl rfl
    rw [gather_eq gathers, same, alone, gathers.zero_left]
    exact gatherAll_nil op count
  unfold kerned
  split
  · rw [group, gatherAll_cons, gather_one gathers, last, gathers.zero_right]
  · rename_i children held
    rw [gather_eq gathers, gather_eq gathers count target, childList, childList, held,
      Option.getD_some, Option.getD_some, gather_one gathers, group, gatherAll_concat gathers count last]
    exact congrArg (op · (gatherAll op count children)) (named _ _ rfl rfl)

end Node

/-! ## The calls of the drawing functions -/

namespace Draw

open Node

/-- A call of one of the drawing functions, over a table of symbols: for a list of nodes that stand
one behind the other, for a command, for what it holds, for the body of a table, or for the text of a
box. -/
inductive Task (symbols : SymbolTable) where
  | group (nodes : List Node)
  | command (node : Node)
  | children (node : Node)
  | table (nodes : List Node)
  | box (text : String)

/-- The first call is made by the second one. -/
inductive Calls (symbols : SymbolTable) : Task symbols → Task symbols → Prop
  | command {node : Node} {rest : List Node} : Calls symbols (.command node) (.group (node :: rest))
  /-- A font command, or a group. -/
  | inside {node : Node} {rest : List Node} :
    Calls symbols (.group node.childList) (.group (node :: rest))
  | behind {node : Node} {rest : List Node} : Calls symbols (.group rest) (.group (node :: rest))
  | box {node : Node} {text : String} (hbox : node.token = "\\hbox") (told : node.text = some text) :
    Calls symbols (.box text) (.command node)
  | children {node : Node} : Calls symbols (.children node) (.command node)
  | table {node : Node} : Calls symbols (.table node.childList) (.children node)
  | whole {node : Node} : Calls symbols (.group node.childList) (.children node)
  | one {node child : Node} (held : child ∈ node.childList) :
    Calls symbols (.group [child]) (.children node)
  | skewed {node target : Node} {rest : List Node} (skew : node.token = "\\skew")
    (held : node.childList = target :: rest) :
    Calls symbols (.group [kerned target node]) (.children node)
  | cell {node : Node} {nodes : List Node} (held : node ∈ nodes) :
    Calls symbols (.group [node]) (.table nodes)
  | formula {text part : String} {nodes : List Node} (held : (.math, part) ∈ Box.parts text)
    (parsed : Formula.parse symbols part = .ok nodes) : Calls symbols (.group nodes) (.box text)

/-! ## Why it ends -/

/-- What a call has left to do: the length of the longest text of a box, the number of skews, and four
times the number of nodes, with something added that tells the functions apart. -/
def Task.load {symbols : SymbolTable} : Task symbols → Nat × Nat × Nat
  | .group nodes => (gatherAll max boxLength nodes, gatherAll (· + ·) isSkew nodes,
      4 * gatherAll (· + ·) (fun _ => 1) nodes + 2)
  | .command node => (gather max boxLength node, gather (· + ·) isSkew node,
      4 * gather (· + ·) (fun _ => 1) node + 1)
  | .children node => (gather max boxLength node, gather (· + ·) isSkew node,
      4 * gather (· + ·) (fun _ => 1) node)
  | .table nodes => (gatherAll max boxLength nodes, gatherAll (· + ·) isSkew nodes,
      4 * gatherAll (· + ·) (fun _ => 1) nodes + 3)
  | .box text => (text.length + 1, 0, 0)

/-- The first of three numbers that changes is lower. -/
def Lower : Nat × Nat × Nat → Nat × Nat × Nat → Prop := Prod.Lex (· < ·) (Prod.Lex (· < ·) (· < ·))

theorem lower_wellFounded : WellFounded Lower := by
  have nat : WellFounded fun m n : Nat => m < n := Nat.lt_wfRel.wf
  exact (nat.prod_lex (nat.prod_lex nat))

theorem lower_size {boxes boxes' skews skews' size size' : Nat} (first : boxes ≤ boxes')
    (second : skews ≤ skews') (third : size < size') :
    Lower (boxes, skews, size) (boxes', skews', size') := by
  rcases Nat.lt_or_eq_of_le first with less | rfl
  · exact .left _ _ less
  · rcases Nat.lt_or_eq_of_le second with less | rfl
    · exact .right _ (.left _ _ less)
    · exact .right _ (.right _ third)

theorem lower_skews {boxes boxes' skews skews' size size' : Nat} (first : boxes ≤ boxes')
    (second : skews < skews') : Lower (boxes, skews, size) (boxes', skews', size') := by
  rcases Nat.lt_or_eq_of_le first with less | rfl
  · exact .left _ _ less
  · exact .right _ (.left _ _ second)

theorem length_lt_load {node : Node} {text : String} (hbox : node.token = "\\hbox")
    (told : node.text = some text) : text.length + 1 ≤ gather max boxLength node := by
  have own : boxLength node = text.length + 1 := by
    rw [boxLength, if_pos hbox, told]
    rfl
  rw [gather_eq gathers_max, own]
  exact Nat.le_max_left _ _

/-- The boxes in a tree are no longer than the source that it is parsed from. -/
theorem boxes_le {nodes : List Node} {bound : Nat}
    (all : ∀ node ∈ nodes, node.All (Told (·.length ≤ bound))) :
    gatherAll max boxLength nodes ≤ bound + 1 := by
  refine gatherAll_max_le fun node mem => ?_
  have told := all node mem
  clear mem
  induction node using Node.induct with
  | step node ih =>
    obtain ⟨here, below⟩ := all_iff.mp told
    have own : boxLength node ≤ bound + 1 := by
      unfold boxLength
      split
      · cases given : node.text with
        | none => exact Nat.zero_le _
        | some text => exact Nat.succ_le_succ (here text given)
      · exact Nat.zero_le _
    rw [gather_eq gathers_max]
    exact Nat.max_le.mpr ⟨own, gatherAll_max_le fun child held => ih child held (below child held)⟩

/-- A call has less left to do than the one that makes it. -/
theorem Calls.lower {symbols : SymbolTable} {inner outer : Task symbols}
    (calls : Calls symbols inner outer) : Lower inner.load outer.load := by
  have nodes (node : Node) := gather_eq gathers_add (fun _ => 1) node
  cases calls with
  | @command node rest =>
    have first : node ∈ node :: rest := List.mem_cons_self
    have size := gather_le gathers_add (fun _ => 1) first
    exact lower_size (gather_le gathers_max _ first) (gather_le gathers_add _ first) (by omega)
  | @inside node rest =>
    have first : node ∈ node :: rest := List.mem_cons_self
    have size := gather_le gathers_add (fun _ => 1) first
    have own := nodes node
    refine lower_size ?_ ?_ (by omega)
    · exact (gatherAll_children_le gathers_max _ node).trans (gather_le gathers_max _ first)
    · exact (gatherAll_children_le gathers_add _ node).trans (gather_le gathers_add _ first)
  | @behind node rest =>
    have size := gatherAll_cons (· + ·) (fun _ => 1) node rest
    have own := nodes node
    refine lower_size ?_ ?_ (by omega)
    · rw [gatherAll_cons]
      exact Nat.le_max_right _ _
    · rw [gatherAll_cons]
      exact Nat.le_add_left _ _
  | @box node text hbox told =>
    exact lower_size (length_lt_load hbox told) (Nat.zero_le _) (Nat.succ_pos _)
  | children => exact lower_size (Nat.le_refl _) (Nat.le_refl _) (Nat.lt_succ_self _)
  | @table node =>
    have own := nodes node
    exact lower_size (gatherAll_children_le gathers_max _ node)
      (gatherAll_children_le gathers_add _ node) (by omega)
  | @whole node =>
    have own := nodes node
    exact lower_size (gatherAll_children_le gathers_max _ node)
      (gatherAll_children_le gathers_add _ node) (by omega)
  | @one node child held =>
    have size := gather_le gathers_add (fun _ => 1) held
    have own := nodes node
    rw [Task.load, gather_one gathers_max, gather_one gathers_add, gather_one gathers_add]
    refine lower_size ?_ ?_ (by omega)
    · exact (gather_le gathers_max _ held).trans (gatherAll_children_le gathers_max _ node)
    · exact (gather_le gathers_add _ held).trans (gatherAll_children_le gathers_add _ node)
  | @skewed node target rest skew held =>
    have first : target ∈ node.childList := held ▸ List.mem_cons_self
    have named : isSkew node = 1 := if_pos skew
    rw [Task.load, gather_one gathers_max, gather_one gathers_add]
    refine lower_skews ?_ ?_
    · rw [gather_kerned gathers_max (fun _ _ token text => by rw [boxLength, boxLength, token, text])
        rfl rfl]
      exact (gather_le gathers_max _ first).trans (gatherAll_children_le gathers_max _ node)
    · rw [gather_kerned gathers_add (fun _ _ token _ => by rw [isSkew, isSkew, token]) rfl rfl,
        gather_eq gathers_add isSkew node, named]
      have inside := gather_le gathers_add isSkew first
      omega
  | @cell node nodes' held =>
    have size := gather_le gathers_add (fun _ => 1) held
    rw [Task.load, gather_one gathers_max, gather_one gathers_add, gather_one gathers_add]
    exact lower_size (gather_le gathers_max _ held) (gather_le gathers_add _ held) (by omega)
  | @formula text part nodes' held parsed =>
    have shorter := Box.length_math_lt held
    have most := boxes_le (Formula.parse_texts parsed)
    exact .left _ _ (by omega)

theorem calls_wellFounded (symbols : SymbolTable) : WellFounded (Calls symbols) :=
  Subrelation.wf Calls.lower (InvImage.wf Task.load lower_wellFounded)

/-! ## Drawing by recursion along the calls -/

/-- Calls that are made on the way of another one, at any depth. -/
instance (symbols : SymbolTable) : WellFoundedRelation (Task symbols) where
  rel := Relation.TransGen (Calls symbols)
  wf := (calls_wellFounded symbols).transGen

/-- A list of nodes that is drawn on the way of a command. -/
def Below (symbols : SymbolTable) (nodes : List Node) (node : Node) : Prop :=
  Relation.TransGen (Calls symbols) (.group nodes) (.command node)

section

variable {symbols : SymbolTable} {node : Node}

theorem below_whole : Below symbols node.childList node := .tail (.single .whole) .children

theorem below_one {child : Node} (held : child ∈ node.childList) : Below symbols [child] node :=
  .tail (.single (.one held)) .children

theorem below_skewed {target : Node} {rest : List Node} (skew : node.token = "\\skew")
    (held : node.childList = target :: rest) : Below symbols [kerned target node] node :=
  .tail (.single (.skewed skew held)) .children

/-- Whether a node is a box with a formula in its text. -/
def boxes (node : Node) (part : String) : Bool :=
  node.is "\\hbox" && node.text.any fun text => (Box.parts text).contains (.math, part)

theorem boxes_iff {part : String} : boxes node part = true ↔
    node.token = "\\hbox" ∧ ∃ text, node.text = some text ∧ (.math, part) ∈ Box.parts text := by
  simp [boxes, Node.is, Option.any_eq_true]

theorem below_boxed {part : String} {nodes : List Node} (boxed : boxes node part = true)
    (parsed : Formula.parse symbols part = .ok nodes) : Below symbols nodes node := by
  obtain ⟨hbox, text, told, held⟩ := boxes_iff.mp boxed
  exact .tail (.single (.formula held parsed)) (.box hbox told)

variable (node) (draw : (nodes : List Node) → Below symbols nodes node → Context → List Element)

/-- What the children of a node are drawn as, given how lists of nodes below it are drawn. -/
def innerBy : Inner where
  count := node.childList.length
  startsWithLimit := node.childList.head?.any isLimit
  all := draw node.childList below_whole
  each := fun ctx => node.childList.attach.map fun child =>
    (child.1.token, draw [child.1] (below_one child.2) ctx)
  spaced := fun ctx _ =>
    match held : node.childList with
    | [] => []
    | target :: _ =>
      if skew : node.token = "\\skew" then draw [kerned target node] (below_skewed skew held) ctx
      else []

/-- What a formula in the text of a node is drawn as: it is parsed, and drawn in the plain font. -/
def boxedBy (part : String) : Option (List Element) :=
  if boxed : boxes node part = true then
    match parsed : Formula.parse symbols part with
    | .ok nodes => some (draw nodes (below_boxed boxed parsed) ⟨symbols, .plain, false, fun _ => none⟩)
    | .error _ => none
  else none

end

/-- Draws a list of nodes. What is below a node is drawn by this function again: the children, the
node that a skew makes of the first of them, and the nodes of each formula in a box. -/
def drawn (symbols : SymbolTable) : List Node → Context → List Element
  | [], _ => []
  | first :: rest, ctx =>
    let draw (nodes : List Node) (_ : Below symbols nodes first) : Context → List Element :=
      drawn symbols nodes
    match drawing (ctx.boxing (boxedBy first draw)) first (innerBy first draw) with
    | .elements list => list ++ drawn symbols rest ctx
    | .font font => drawn symbols rest { ctx with font }
    | .wrapper attributes =>
      let scope := Element.shell "mstyle" attributes
      [scope.appendChildren (drawn symbols rest (ctx.within scope))]
termination_by nodes => (Task.group nodes : Task symbols)
decreasing_by
  · exact .tail ‹Below symbols nodes first› .command
  · exact .single .behind
  · exact .single .behind
  · exact .single .behind

/-! ## What is drawn -/

section

variable {symbols : SymbolTable}

/-- What a source is drawn as, if nothing is wrong with it. -/
def formula? (symbols : SymbolTable) (part : String) : Option (List Element) :=
  (source symbols part).toOption

/-- The formulas in the boxes of a source are drawn without asking how long they are. -/
theorem source_eq {text : String} {nodes : List Node}
    (parsed : Formula.parse symbols text = .ok nodes) :
    source symbols text = .ok (group ⟨symbols, .plain, false, formula? symbols⟩ [] nodes) := by
  let guarded (inner : String) : Option (List Element) :=
    if inner.length < text.length then formula? symbols inner else none
  have whole : source symbols text = .ok (group ⟨symbols, .plain, false, guarded⟩ [] nodes) := by
    rw [source, parsed]
    rfl
  have boxes : ∀ node ∈ nodes, node.All (SameBoxes guarded (formula? symbols)) := by
    intro node mem
    refine (Formula.parse_texts parsed node mem).mono fun node short hbox inner told part held => ?_
    have shorter : part.length < text.length :=
      (Box.length_math_lt held).trans_le (short inner told)
    exact if_pos shorter
  have same := group_same ⟨symbols, .plain, false, fun _ => none⟩ [] fun node mem =>
    (node_same node (boxes node mem)).1
  rw [whole]
  exact congrArg Except.ok same

variable {node : Node} {draw : (nodes : List Node) → Below symbols nodes node → Context → List Element}

/-- Lists of nodes below a node are drawn as groups. -/
def Groups (symbols : SymbolTable) (node : Node)
    (draw : (nodes : List Node) → Below symbols nodes node → Context → List Element) : Prop :=
  ∀ nodes below, TidyAll nodes → ∀ ctx : Context,
    draw nodes below ctx = group (ctx.boxing (formula? symbols)) [] nodes

theorem innerOf_spaced (node : Node) (ctx : Context) (space : Element) :
    (innerOf node).spaced ctx space = spacedHead ctx space node.childList := by
  unfold innerOf childList
  cases node.children with
  | none =>
    rw [Option.getD_none, spacedHead]
    rfl
  | some children => rfl

theorem innerBy_same (groups : Groups symbols node draw) (tidy : node.Tidy)
    (boxed : String → Option (List Element)) :
    SameInner boxed (formula? symbols) node (innerBy node draw) (innerOf node) := by
  constructor
  · change Held.mk node.childList.length (node.childList.head?.any isLimit) = (innerOf node).toHeld
    unfold innerOf childList
    cases node.children with
    | none => rfl
    | some children => rfl
  · intro ctx
    refine (groups node.childList below_whole tidy.childList (ctx.boxing boxed)).trans ?_
    unfold innerOf childList
    cases node.children with
    | none => exact group_nil _ _
    | some children => rfl
  · intro ctx
    let item (child : Node) : Table.Item :=
      (child.token, (Draw.node (ctx.boxing (formula? symbols)) child).before [])
    have items : (innerBy node draw).each (ctx.boxing boxed) = node.childList.map item := by
      have one : ∀ child ∈ node.childList.attach,
          (child.1.token, draw [child.1] (below_one child.2) (ctx.boxing boxed)) = item child.1 := by
        intro child _
        have tidy' : TidyAll [child.1] := TidyAll.cons (tidy.childList child.1 child.2) TidyAll.nil
        rw [groups _ _ tidy', group_one]
        rfl
      exact (List.map_congr_left one).trans List.attach_map_val
    rw [items]
    unfold innerOf childList
    cases node.children with
    | none => rfl
    | some children => exact (each_eq_map _ children).symm
  · intro skew ctx
    rw [innerOf_spaced]
    unfold innerBy
    dsimp only
    split
    · rename_i held
      rw [held, spacedHead]
    · rename_i target rest held
      have first : target.Tidy := tidy.childList target (held ▸ List.mem_cons_self)
      have kerned' : TidyAll [kerned target node] :=
        TidyAll.cons (tidy_kerned first tidy.attributes) TidyAll.nil
      rw [dif_pos skew, groups _ _ kerned', held, spacedHead, spacedNode_kerned _ tidy.attributes]
      rfl

theorem boxedBy_same (groups : Groups symbols node draw) :
    SameBoxes (boxedBy node draw) (formula? symbols) node := by
  intro hbox text told part held
  have boxed : boxes node part = true := boxes_iff.mpr ⟨hbox, text, told, held⟩
  unfold boxedBy formula?
  rw [dif_pos boxed]
  split
  · rename_i nodes parsed
    rw [groups nodes _ (Formula.tidy_parse parsed), source_eq parsed]
    rfl
  · rename_i e parsed
    rw [source, parsed]
    rfl

theorem drawn_eq (nodes : List Node) (tidy : TidyAll nodes) (ctx : Context) :
    drawn symbols nodes ctx = group (ctx.boxing (formula? symbols)) [] nodes := by
  let start (nodes : List Node) : Task symbols := .group nodes
  have smaller := InvImage.wf start (calls_wellFounded symbols).transGen
  induction nodes using smaller.induction generalizing ctx with
  | _ nodes ih =>
    cases nodes with
    | nil => rw [drawn, group_nil]
    | cons first rest =>
      obtain ⟨head, tail⟩ := List.forall_mem_cons.mp tidy
      have groups : Groups symbols first fun nodes _ => drawn symbols nodes :=
        fun nodes below tidy ctx => ih nodes (.tail below .command) tidy ctx
      have behind := ih rest (.single .behind) tail
      have same := drawing_same (innerBy_same groups head _) ctx (boxedBy_same groups)
      rw [drawn, group_cons, node_eq]
      dsimp only
      rw [same]
      cases drawing (ctx.boxing (formula? symbols)) first (innerOf first) with
      | elements list => exact congrArg (list ++ ·) (behind ctx)
      | font font => exact behind { ctx with font }
      | wrapper attributes =>
        exact congrArg (fun list => [(Element.shell "mstyle" attributes).appendChildren list])
          (behind (ctx.within (Element.shell "mstyle" attributes)))

end

/-- Drawing terminates for all trees: the calls of the drawing functions are well founded, nested skews
and formulas in boxes included. The recursion along these calls, which builds the nodes that skews
make and parses what boxes hold, draws what is drawn for lists of nodes and for sources. -/
theorem drawing_terminates (symbols : SymbolTable) :
    WellFounded (Calls symbols) ∧
      (∀ nodes, TidyAll nodes → ∀ ctx : Context,
        drawn symbols nodes ctx = group (ctx.boxing (formula? symbols)) [] nodes) ∧
      ∀ text, source symbols text = (Formula.parse symbols text).map fun nodes =>
        drawn symbols nodes ⟨symbols, .plain, false, fun _ => none⟩ := by
  refine ⟨calls_wellFounded symbols, drawn_eq, fun text => ?_⟩
  cases parsed : Formula.parse symbols text with
  | error e =>
    rw [source, parsed]
    rfl
  | ok nodes =>
    let plain : Context := ⟨symbols, .plain, false, fun _ => none⟩
    have whole : drawn symbols nodes plain = group (plain.boxing (formula? symbols)) [] nodes :=
      drawn_eq nodes (Formula.tidy_parse parsed) plain
    rw [source_eq parsed]
    exact congrArg Except.ok whole.symm

/-- A skew of a skew, beside a box with a formula that holds a box. -/
theorem drawing_terminates_nested :
    ∃ nodes : List Node,
      Formula.parse ⟨[]⟩ "\\skew1\x7b\\skew2x\x7d\\hbox\x7ba $\\hbox b$\x7d" = .ok nodes ∧
        nodes.length = 2 ∧ TidyAll nodes ∧ ∀ ctx : Context,
          drawn ⟨[]⟩ nodes ctx = group (ctx.boxing (formula? ⟨[]⟩)) [] nodes := by
  let inner : Node := (withChildren "\\skew" [.leaf "x"]).setAttribute "width" "0.111em"
  let skew : Node := (withChildren "\\skew" [.braces [inner]]).setAttribute "width" "0.0555em"
  let hbox : Node := { Node.leaf "\\hbox" with text := some "a $\\hbox b$" }
  have parsed : Formula.parse ⟨[]⟩ "\\skew1\x7b\\skew2x\x7d\\hbox\x7ba $\\hbox b$\x7d" =
      .ok [skew, hbox] := by
    decide +kernel
  have tidy := Formula.tidy_parse parsed
  exact ⟨_, parsed, rfl, tidy, (drawing_terminates ⟨[]⟩).2.1 _ tidy⟩

end Draw

end FormulaMarkup

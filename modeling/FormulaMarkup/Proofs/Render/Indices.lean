import FormulaMarkup.Proofs.Parsing.Indices
import FormulaMarkup.Render.Source

/-!
Drawing with indices. What follows a style switch is the slice of its group behind it, the letters of
the columns of a table are looked up modulo their number, and an operator with a name is drawn as the
slice of its name behind the backslash. A strict drawing fails where one of these operations does.
Main statement: `Draw.source?_eq`, by which the strict drawing of any source is the plain one.
-/
namespace FormulaMarkup

open Bytes (drop? sliceFrom?)

/-! ## Elements and tables -/

/-- A difference of numbers, the second of which may not be greater. -/
def minus? (n m : Nat) : Option Nat := if m ≤ n then some (n - m) else none

/-- The remainder of a division, which may not be by zero. -/
def remainder? (n m : Nat) : Option Nat := if m = 0 then none else some (n % m)

namespace Element

/-- Puts an element behind the children, and gives what is then the last of them. -/
def pushChild? (e child : Element) : Option (Element × Element) := do
  let children := e.children ++ [child]
  let last ← children[← minus? children.length 1]?
  return ({ e with children }, last)

theorem pushChild?_eq (e child : Element) : e.pushChild? child = some (e.appendChild child, child) := by
  have last : minus? (e.children ++ [child]).length 1 = some e.children.length := by
    rw [List.length_append]
    exact if_pos (Nat.le_add_left 1 _)
  unfold pushChild?
  dsimp only
  rw [last]
  simp [appendChild]

end Element

namespace Table

/-- The alignment of a column, whose letter is looked up if there are any. -/
def strictAlignment? (letters : List Char) (column : Nat) : Option (Option String) := do
  if letters.isEmpty then return none
  else
    let letter ← letters[← remainder? column letters.length]?
    return alignmentWord? letter

def strictCell? (paired : Bool) (letters : List Char) (column : Nat) (items : List Item) :
    Option Element := do
  let alignment := (fillAlignment? items).or (← strictAlignment? letters column)
  let lead := if paired && column % 2 = 1 then [Element.ofTag "mi"] else []
  return ⟨"mtd", (alignment.map fun word => ("columnalign", word)).toList, "",
    lead ++ (items.filter Item.isDrawn).flatMap (·.2)⟩

def strictRow? (paired : Bool) (letters : List Char) (cells : List (List Item)) : Option Element := do
  let drawn ← cells.zipIdx.mapM fun (items, column) => strictCell? paired letters column items
  return Element.holding "mtr" drawn

def strictRows? (paired : Bool) (letters : List Char) (body : List Item) : Option (List Element) := do
  let all ← (rowsOf body).mapM (strictRow? paired letters)
  return if all.getLast?.any isTrailing then all.dropLast else all

def strictFillIn? (command : String) (alignment : List Char) (body : List Item) (table : Element) :
    Option Element := do
  let letters := lettersFor command alignment
  let table := table.appendChildren (← strictRows? (isPaired command) letters body)
  let kinds := lineKinds body
  let table :=
    if kinds.contains "solid" then table.setAttribute "rowlines" (" ".intercalate kinds) else table
  if isSpaced command && !body.isEmpty then
    let columns := ((rowsOf body).map List.length).foldl max 0
    let spaces := List.replicate (max 1 (columns / 2)) "0em 2em"
    return table.setAttribute "columnspacing" (" ".intercalate spaces)
  else return table

theorem strictAlignment?_eq (letters : List Char) (column : Nat) :
    strictAlignment? letters column = some (columnAlignment? letters column) := by
  cases letters with
  | nil => rfl
  | cons first more =>
    have place : remainder? column (first :: more).length = some (column % (first :: more).length) :=
      if_neg (Nat.succ_ne_zero more.length)
    have within : column % (first :: more).length < (first :: more).length :=
      Nat.mod_lt column (Nat.succ_pos more.length)
    unfold strictAlignment? columnAlignment?
    rw [place, List.getElem?_eq_getElem within]
    dsimp only [Option.bind_eq_bind, Option.bind_some]
    rw [List.getElem?_eq_getElem within]
    rfl

theorem strictCell?_eq (paired : Bool) (letters : List Char) (column : Nat) (items : List Item) :
    strictCell? paired letters column items = some (cell paired letters column items) := by
  rw [strictCell?, strictAlignment?_eq]
  rfl

theorem strictRow?_eq (paired : Bool) (letters : List Char) (cells : List (List Item)) :
    strictRow? paired letters cells = some (row paired letters cells) := by
  have all (indexed : List (List Item × Nat)) :
      indexed.mapM (fun (items, column) => strictCell? paired letters column items) =
        some (indexed.map fun (items, column) => cell paired letters column items) := by
    simp only [strictCell?_eq]
    exact List.mapM_pure
  rw [strictRow?, row, all, List.mapIdx_eq_zipIdx_map]
  rfl

theorem strictRows?_eq (paired : Bool) (letters : List Char) (body : List Item) :
    strictRows? paired letters body = some (rows paired letters body) := by
  have all : strictRow? paired letters = fun cells => some (row paired letters cells) :=
    funext (strictRow?_eq paired letters)
  have drawn : (rowsOf body).mapM (fun cells => some (row paired letters cells)) =
      some ((rowsOf body).map (row paired letters)) := List.mapM_pure
  rw [strictRows?, all, drawn]
  rfl

theorem strictFillIn?_eq (command : String) (alignment : List Char) (body : List Item) (table : Element) :
    strictFillIn? command alignment body table = some (fillIn command alignment body table) := by
  unfold strictFillIn? fillIn
  dsimp only
  rw [strictRows?_eq, Option.bind_eq_bind, Option.bind_some]
  split <;> rfl

end Table

namespace Draw

/-! ## Strict drawings -/

structure StrictContext where
  symbols : SymbolTable
  font : Font
  inTextStyle : Bool
  /-- What a formula in a box is drawn as, where no operation fails on the way. -/
  boxed : String → Option (Option (List Element))

namespace StrictContext

def of (ctx : Context) : StrictContext :=
  ⟨ctx.symbols, ctx.font, ctx.inTextStyle, fun part => some (ctx.boxed part)⟩

/-- A context without boxes, for what holds none. -/
def unboxed (ctx : StrictContext) : Context := ⟨ctx.symbols, ctx.font, ctx.inTextStyle, fun _ => none⟩

def within (ctx : StrictContext) (e : Element) : StrictContext :=
  { ctx with inTextStyle := e.attribute? "displaystyle" == some "false" }

theorem of_within (ctx : Context) (e : Element) : (of ctx).within e = of (ctx.within e) := rfl

end StrictContext

/-- What the children of a node are drawn as, where no operation fails on the way. -/
structure StrictInner extends Held where
  all : StrictContext → Option (List Element)
  each : StrictContext → Option (List Table.Item)
  spaced : StrictContext → Element → Option (List Element)

namespace StrictInner

/-- What is told of children, without what they are drawn as. -/
def told (inner : StrictInner) : Inner := { nothing with toHeld := inner.toHeld }

/-- No operation fails, and the children are drawn as they plainly are. -/
structure Gives (strict : StrictInner) (inner : Inner) : Prop where
  held : strict.toHeld = inner.toHeld
  all : ∀ ctx, strict.all (.of ctx) = some (inner.all ctx)
  each : ∀ ctx, strict.each (.of ctx) = some (inner.each ctx)
  spaced : ∀ ctx space, strict.spaced (.of ctx) space = some (inner.spaced ctx space)

end StrictInner

def strictLabelled (ctx : StrictContext) (node : Node) (style : Style) (e : Element) :
    Option Element := do
  if Style.limitCommands.contains node.token then
    return e.setText (String.ofList (← sliceFrom? node.token.toList 1))
  else return labelled ctx.unboxed node style e

def strictFilled (ctx : StrictContext) (node : Node) (inner : StrictInner) (e : Element) :
    Option Element := do
  let ctx := ctx.within e
  let command := node.token
  if Style.tableCommands.contains command then
    let letters := match node.alignment with
      | some alignment => (Table.splitAlignment alignment).1
      | none => []
    Table.strictFillIn? command letters (← inner.each (ctx.within (Element.ofTag "mtd"))) e
  else if command == "\\cfrac" then
    let scope := Element.shell "mstyle" [("displaystyle", "false"), ("scriptlevel", "0")]
    let items ← inner.each (ctx.within scope)
    return e.appendChildren (items.map fun item => scope.appendChildren item.2)
  else if command == "\\sideset" then
    match ← inner.each ctx with
    | [left, right] =>
      let fill := Drawing.styled [("scriptlevel", "0")] [Glyph.kern "-0.167em"]
      return e.appendChildren (left.2 ++ fill :: right.2)
    | _ => return e.appendChildren (← inner.all ctx)
  else if command == "\\skew" then
    return e.appendChildren (← inner.spaced ctx (skewSpace node))
  else if command == "\\xleftarrow" || command == "\\xrightarrow" then
    let padded := Element.ofTag "mpadded"
    let strut := Element.shell "mspace" [("depth", "0.25em")]
    let items ← inner.each (ctx.within padded)
    return e.appendChildren (items.map fun item => padded.appendChildren (item.2 ++ [strut]))
  else return e.appendChildren (← inner.all ctx)

def strictBoxParts (ctx : StrictContext) (text : String) (e : Element) : Option (List Element) :=
  (Box.parts text).mapM fun (mode, part) => do
    let formula ← if mode = .math then ctx.boxed part else some none
    match formula with
    | some elements => return Element.holding "mrow" elements
    | none => return (e.setText (Glyph.unbroken part)).setFont ctx.font .text

def strictBody (ctx : StrictContext) (node : Node) (style : Style) (inner : StrictInner) :
    Option (List Element) := do
  let e ← strictLabelled ctx node style (shell node style inner.told)
  if node.is "\\left" then return e :: (← inner.all ctx)
  else if isModulus node.token then return e :: Glyph.kern "0.333em" :: (← inner.all ctx)
  else return [accented node (← strictFilled ctx node inner e)]

def strictContent (ctx : StrictContext) (node : Node) (style : Style) (inner : StrictInner) :
    Option (List Element) := do
  match if node.is "\\hbox" then node.text else none with
  | some text => strictBoxParts ctx text (shell node style inner.told)
  | none =>
    let fences := fences? node
    let size := fences.bind fun fences =>
      if fences.sized then some (fenceSize ctx.inTextStyle node.token) else none
    let fence (name : Option String) : List Element := fence ctx.symbols size name
    let opposite := if node.is "\\skew" then node.attribute? "width" else none
    return fence (fences.bind Fences.opening) ++ (← strictBody ctx node style inner) ++
      fence (fences.bind Fences.closing) ++
      (opposite.map fun width => Glyph.kern (Skew.opposite width)).toList

def strictInScope (ctx : StrictContext) (node : Node) (style : Style) (inner : StrictInner) :
    Option (List Element) := do
  match scope? ctx.symbols node.token with
  | some scope => return [scope.appendChildren (← strictContent (ctx.within scope) node style inner)]
  | none => strictContent ctx node style inner

def strictCommand (ctx : StrictContext) (node : Node) (style : Style) (inner : StrictInner) :
    Option (List Element) := do
  if isModulus node.token then return Glyph.kern "1em" :: (← strictInScope ctx node style inner)
  else strictInScope ctx node style inner

def strictDrawing (ctx : StrictContext) (node : Node) (inner : StrictInner) : Option Drawing := do
  match Style.switches.lookup node.token with
  | some attributes => return .wrapper attributes
  | none =>
    match Style.of? node.token with
    | some style => return .elements (← strictCommand ctx node style inner)
    | none =>
      match if node.isLeaf then none else Font.ofArgument.lookup node.token with
      | some font => return .elements (← inner.all { ctx with font })
      | none =>
        if !node.isLeaf && Word.begins "\\math" node.token then return .elements (← inner.all ctx)
        else
          match Font.ofRest.lookup node.token with
          | some font => return .font font
          | none =>
            if node.isLeaf then return .elements [Glyph.draw ctx.symbols ctx.font node]
            else
              let row := Element.shell "mrow" node.attributes
              return .elements [row.appendChildren (← inner.all (ctx.within row))]

def strictNothing : StrictInner where
  count := 0
  startsWithLimit := false
  all := fun _ => some []
  each := fun _ => some []
  spaced := fun _ _ => some []

mutual

def strictNode (ctx : StrictContext) : Node → Option Drawing
  | ⟨token, none, delimiter, alignment, text, attributes, modifier⟩ =>
    strictDrawing ctx ⟨token, none, delimiter, alignment, text, attributes, modifier⟩ strictNothing
  | ⟨token, some children, delimiter, alignment, text, attributes, modifier⟩ =>
    strictDrawing ctx ⟨token, some children, delimiter, alignment, text, attributes, modifier⟩
      { count := children.length
        startsWithLimit := children.head?.any isLimit
        all := fun ctx => strictGroup ctx [] children 0 children
        each := fun ctx => strictEach ctx children
        spaced := fun ctx space => strictSpacedHead ctx space children }

/-- The elements for the nodes of a list from a place on. What a switch wraps has to be the slice of
the list behind it. -/
def strictGroup (ctx : StrictContext) (behind : List Element) (nodes : List Node) (place : Nat) :
    List Node → Option (List Element)
  | [] => some behind
  | first :: rest => do
    match ← strictNode ctx first with
    | .elements list => return list ++ (← strictGroup ctx behind nodes (place + 1) rest)
    | .font font => strictGroup { ctx with font } behind nodes (place + 1) rest
    | .wrapper attributes =>
      let scope := Element.shell "mstyle" attributes
      if drop? nodes (place + 1) = some rest then
        return [scope.appendChildren (← strictGroup (ctx.within scope) behind rest 0 rest)]
      else none

def strictEach (ctx : StrictContext) : List Node → Option (List Table.Item)
  | [] => some []
  | first :: rest => do
    let drawing ← strictNode ctx first
    return (first.token, drawing.before []) :: (← strictEach ctx rest)

def strictSpacedHead (ctx : StrictContext) (space : Element) : List Node → Option (List Element)
  | [] => some []
  | first :: _ => strictSpacedNode ctx space first

def strictSpacedNode (ctx : StrictContext) (space : Element) : Node → Option (List Element)
  | ⟨token, none, delimiter, alignment, text, attributes, modifier⟩ => do
    let leaf : Node := ⟨token, none, delimiter, alignment, text, attributes, modifier⟩
    let drawing ← strictDrawing (ctx.within (groupRow [])) leaf strictNothing
    return [groupRow (drawing.before [space])]
  | ⟨token, some children, delimiter, alignment, text, attributes, modifier⟩ => do
    let held (ctx : StrictContext) (behind : List Element) : Option Element := do
      return groupRow (← strictGroup (ctx.within (groupRow [])) behind children 0 children)
    let drawing ←
      strictDrawing ctx ⟨token, some children, delimiter, alignment, text, attributes, modifier⟩
        { count := 1
          startsWithLimit := false
          all := fun ctx => do return [← held ctx [space]]
          each := fun ctx => do return [(Word.braces, [← held ctx [space]])]
          spaced := fun ctx further => do return [groupRow [← held ctx [space, further]]] }
    return drawing.before []

end

/-- The elements for a source, or what is wrong with it, where no operation fails on the way. -/
def source? (symbols : SymbolTable) (text : String) : Option (Except FormulaError (List Element)) := do
  match ← Formula.parse? symbols text with
  | .error e => return .error e
  | .ok nodes =>
    let boxed (inner : String) : Option (Option (List Element)) :=
      if inner.length < text.length then (source? symbols inner).map Except.toOption else some none
    return .ok (← strictGroup ⟨symbols, .plain, false, boxed⟩ [] nodes 0 nodes)
termination_by text.length

/-! ## Commands -/

/- The operators with a name have a backslash before it. -/
theorem label_eq {token : String} (limit : Style.limitCommands.contains token) :
    sliceFrom? token.toList 1 = some (token.toList.drop 1) := by
  have all : ∀ command ∈ Style.limitCommands,
      sliceFrom? command.toList 1 = some (command.toList.drop 1) := by decide
  exact all token (List.contains_iff_mem.mp limit)

theorem strictLabelled_eq (ctx : Context) (node : Node) (style : Style) (e : Element) :
    strictLabelled (.of ctx) node style e = some (labelled ctx node style e) := by
  unfold strictLabelled
  split
  · rename_i limit
    rw [label_eq limit, labelled, if_pos limit]
    rfl
  · rfl

theorem strictBoxParts_eq (ctx : Context) (text : String) (e : Element) :
    strictBoxParts (.of ctx) text e = some (boxParts ctx text e) := by
  have each (parted : Box.Mode × String) :
      (do
        let formula ← if parted.1 = .math then (StrictContext.of ctx).boxed parted.2 else some none
        match formula with
        | some elements => some (Element.holding "mrow" elements)
        | none => some ((e.setText (Glyph.unbroken parted.2)).setFont ctx.font .text)) =
      some (match if parted.1 = .math then ctx.boxed parted.2 else none with
        | some elements => Element.holding "mrow" elements
        | none => (e.setText (Glyph.unbroken parted.2)).setFont ctx.font .text) := by
    by_cases math : parted.1 = .math
    · rw [if_pos math, if_pos math]
      change (match ctx.boxed parted.2 with | some elements => _ | none => _) = _
      cases ctx.boxed parted.2 <;> rfl
    · rw [if_neg math, if_neg math]
      rfl
  unfold strictBoxParts boxParts
  exact (congrArg (List.mapM · (Box.parts text)) (funext each)).trans List.mapM_pure

section

variable {strict : StrictInner} {inner : Inner} (gives : strict.Gives inner) (ctx : Context) (node : Node)

include gives

theorem shell_told (style : Style) : shell node style strict.told = shell node style inner := by
  have held : strict.told.toHeld = inner.toHeld := gives.held
  unfold shell
  rw [held]

theorem strictFilled_eq (e : Element) :
    strictFilled (.of ctx) node strict e = some (filled ctx node inner e) := by
  unfold strictFilled filled
  dsimp only
  simp only [StrictContext.of_within, gives.all, gives.each, gives.spaced, Table.strictFillIn?_eq,
    Option.bind_eq_bind, Option.bind_some]
  by_cases table : Style.tableCommands.contains node.token
  · rw [if_pos table]
    exact congrArg some (if_pos table).symm
  rw [if_neg table, if_neg table]
  by_cases fraction : node.token == "\\cfrac"
  · rw [if_pos fraction, if_pos fraction]
    rfl
  rw [if_neg fraction, if_neg fraction]
  by_cases sides : node.token == "\\sideset"
  · rw [if_pos sides, if_pos sides]
    rcases inner.each (ctx.within e) with _ | ⟨left, _ | ⟨right, _ | ⟨third, more⟩⟩⟩ <;> rfl
  rw [if_neg sides, if_neg sides]
  by_cases skew : node.token == "\\skew"
  · rw [if_pos skew, if_pos skew]
    rfl
  rw [if_neg skew, if_neg skew]
  split <;> rfl

theorem strictBody_eq (style : Style) :
    strictBody (.of ctx) node style strict = some (body ctx node style inner) := by
  unfold strictBody body
  rw [shell_told gives, strictLabelled_eq, gives.all, Option.bind_eq_bind, Option.bind_some,
    strictFilled_eq gives]
  split
  · rfl
  · split <;> rfl

theorem strictContent_eq (style : Style) :
    strictContent (.of ctx) node style strict = some (content ctx node style inner) := by
  unfold strictContent content
  rw [shell_told gives, strictBody_eq gives]
  cases if node.is "\\hbox" then node.text else none with
  | some text => exact strictBoxParts_eq ctx text (shell node style inner)
  | none => rfl

theorem strictInScope_eq (style : Style) :
    strictInScope (.of ctx) node style strict = some (inScope ctx node style inner) := by
  unfold strictInScope inScope
  change (match scope? ctx.symbols node.token with | some scope => _ | none => _) = _
  cases scope? ctx.symbols node.token with
  | some scope =>
    dsimp only
    rw [StrictContext.of_within, strictContent_eq gives]
    rfl
  | none => exact strictContent_eq gives ctx node style

theorem strictCommand_eq (style : Style) :
    strictCommand (.of ctx) node style strict = some (command ctx node style inner) := by
  unfold strictCommand command
  rw [strictInScope_eq gives]
  split <;> rfl

theorem strictDrawing_eq : strictDrawing (.of ctx) node strict = some (drawing ctx node inner) := by
  have font (font : Font) : { StrictContext.of ctx with font } = .of { ctx with font } := rfl
  unfold strictDrawing drawing
  simp only [font, StrictContext.of_within, gives.all, strictCommand_eq gives]
  cases Style.switches.lookup node.token with
  | some attributes => rfl
  | none =>
    cases Style.of? node.token with
    | some style => rfl
    | none =>
      cases if node.isLeaf then none else Font.ofArgument.lookup node.token with
      | some font => rfl
      | none =>
        dsimp only
        split
        · rfl
        · cases Font.ofRest.lookup node.token with
          | some font => rfl
          | none =>
            dsimp only
            split <;> rfl

theorem strictDrawing_before (following : List Element) :
    (do return (← strictDrawing (.of ctx) node strict).before following) =
      some ((drawing ctx node inner).before following) := by
  rw [strictDrawing_eq gives]
  rfl

end

/-! ## Nodes -/

theorem strictNothing_gives : strictNothing.Gives nothing where
  held := rfl
  all := fun _ => rfl
  each := fun _ => rfl
  spaced := fun _ _ => rfl

mutual

theorem strictNode_eq (ctx : Context) : (n : Node) → strictNode (.of ctx) n = some (node ctx n)
  | ⟨token, none, delimiter, alignment, text, attributes, modifier⟩ => by
    rw [strictNode, node, strictDrawing_eq strictNothing_gives]
  | ⟨token, some children, delimiter, alignment, text, attributes, modifier⟩ => by
    rw [strictNode, node]
    apply strictDrawing_eq
    constructor
    · rfl
    · exact fun ctx => strictGroup_eq ctx [] children 0 children rfl
    · exact fun ctx => strictEach_eq ctx children
    · exact fun ctx space => strictSpacedHead_eq ctx space children

/- The nodes that are left are the ones of the list from a place on. -/
theorem strictGroup_eq (ctx : Context) (behind : List Element) (nodes : List Node) (place : Nat) :
    (rest : List Node) → nodes.drop place = rest →
      strictGroup (.of ctx) behind nodes place rest = some (group ctx behind rest)
  | [], _ => by
    rw [strictGroup, group]
  | first :: rest, left => by
    have further : nodes.drop (place + 1) = rest := by
      rw [← List.drop_drop, left]
      rfl
    rw [strictGroup, group, strictNode_eq ctx first]
    cases node ctx first with
    | elements list =>
      change (strictGroup (.of ctx) behind nodes (place + 1) rest).bind _ = _
      rw [strictGroup_eq ctx behind nodes (place + 1) rest further]
      rfl
    | font font => exact strictGroup_eq { ctx with font } behind nodes (place + 1) rest further
    | wrapper attributes =>
      have within : place + 1 ≤ nodes.length := by
        have count := congrArg List.length left
        rw [List.length_drop, List.length_cons] at count
        omega
      have slice : drop? nodes (place + 1) = some rest := further ▸ if_pos within
      change (if drop? nodes (place + 1) = some rest then
        (strictGroup (.of (ctx.within (Element.shell "mstyle" attributes))) behind rest 0 rest).bind _
        else none) = _
      rw [if_pos slice, strictGroup_eq _ behind rest 0 rest rfl]
      rfl

theorem strictEach_eq (ctx : Context) :
    (nodes : List Node) → strictEach (.of ctx) nodes = some (each ctx nodes)
  | [] => by
    rw [strictEach, each]
  | first :: rest => by
    rw [strictEach, each, strictNode_eq ctx first, strictEach_eq ctx rest]
    rfl

theorem strictSpacedHead_eq (ctx : Context) (space : Element) :
    (nodes : List Node) → strictSpacedHead (.of ctx) space nodes = some (spacedHead ctx space nodes)
  | [] => by
    rw [strictSpacedHead, spacedHead]
  | first :: _ => by
    rw [strictSpacedHead, spacedHead, strictSpacedNode_eq ctx space first]

theorem strictSpacedNode_eq (ctx : Context) (space : Element) :
    (n : Node) → strictSpacedNode (.of ctx) space n = some (spacedNode ctx space n)
  | ⟨token, none, delimiter, alignment, text, attributes, modifier⟩ => by
    rw [strictSpacedNode, spacedNode, StrictContext.of_within, strictDrawing_eq strictNothing_gives]
    rfl
  | ⟨token, some children, delimiter, alignment, text, attributes, modifier⟩ => by
    have held (ctx : Context) (behind : List Element) :
        strictGroup ((StrictContext.of ctx).within (groupRow [])) behind children 0 children =
          some (group (ctx.within (groupRow [])) behind children) :=
      strictGroup_eq (ctx.within (groupRow [])) behind children 0 children rfl
    rw [strictSpacedNode, spacedNode]
    apply strictDrawing_before
    constructor
    · rfl
    · intro ctx
      dsimp only
      rw [held]
      rfl
    · intro ctx
      dsimp only
      rw [held]
      rfl
    · intro ctx further
      dsimp only
      rw [held]
      rfl

end

/-! ## Sources -/

theorem source?_eq (symbols : SymbolTable) (text : String) :
    source? symbols text = some (source symbols text) := by
  induction length : text.length using Nat.strongRecOn generalizing text with
  | ind n ih =>
    rw [source?, source, Formula.parse?_eq]
    cases Formula.parse symbols text with
    | error e => rfl
    | ok nodes =>
      let boxed (inner : String) : Option (List Element) :=
        if inner.length < text.length then (source symbols inner).toOption else none
      have strict : (fun inner : String =>
          if inner.length < text.length then (source? symbols inner).map Except.toOption
          else some none) = fun inner => some (boxed inner) := by
        funext inner
        dsimp only [boxed]
        split
        · rename_i shorter
          rw [ih inner.length (length ▸ shorter) inner rfl]
          rfl
        · rfl
      dsimp only [Option.bind_eq_bind, Option.bind_some]
      rw [strict]
      change (strictGroup (.of ⟨symbols, .plain, false, boxed⟩) [] nodes 0 nodes).bind _ = _
      rw [strictGroup_eq _ [] nodes 0 nodes rfl]
      rfl

end Draw

end FormulaMarkup

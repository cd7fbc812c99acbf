import FormulaMarkup.Proofs.Markup.Building
import FormulaMarkup.Proofs.Render.CommandFits
import FormulaMarkup.Proofs.Render.Skewed
import FormulaMarkup.Proofs.Render.Tidy

/-!
What is set on the elements of a formula. The style of a command, the node, the fonts and the alignment
of a table all set attributes, often on one element and some of them the same. For every kind of element
it is said here what is set on it and in which order, and the elements of glyphs, tables and commands
have what is left of that.
-/
namespace FormulaMarkup

/-- What a font sets on a glyph. -/
def Font.sets (font : Font) (kind : GlyphKind) : Attributes :=
  ((font.variant? kind).map fun variant => ("mathvariant", variant)).toList

theorem Element.attributes_setFont (e : Element) (font : Font) (kind : GlyphKind) :
    (e.setFont font kind).attributes = e.attributes.setAll (font.sets kind) := by
  unfold setFont Font.sets
  cases font.variant? kind with
  | none => rfl
  | some variant => rfl

namespace Draw

/-! ## Histories of attributes -/

/-- The nodes that a source is drawn from: all that is parsed of it, at any depth, and the same for the
formulas in the texts of boxes. -/
inductive Occurs (symbols : SymbolTable) : String → Node → Prop where
  | parsed {source : String} {nodes : List Node} {node : Node}
      (parsed : Formula.parse symbols source = .ok nodes) (mem : node ∈ nodes) :
      Occurs symbols source node
  | child {source : String} {outer node : Node} (occurs : Occurs symbols source outer)
      (held : node ∈ outer.childList) : Occurs symbols source node
  | boxed {source formula text : String} {outer node : Node} (occurs : Occurs symbols source outer)
      (told : outer.text = some text) (part : (.math, formula) ∈ Box.parts text)
      (inside : Occurs symbols formula node) : Occurs symbols source node

theorem Occurs.tidy {symbols : SymbolTable} {source : String} {node : Node}
    (occurs : Occurs symbols source node) : node.Tidy := by
  induction occurs with
  | parsed parsed mem => exact Formula.tidy_parse parsed _ mem
  | child _ held ih => exact ih.childList _ held
  | boxed _ _ _ _ _ inside => exact inside

/-- What is set on an element for a command, before its text and its children are drawn: first by its
style, then by the node, then for an operator with limits and for the rules between columns. -/
def shellSets (node : Node) (style : Style) : Attributes :=
  style.attributes ++ (if node.is "\\skew" then [] else node.attributes) ++
    (if Style.limitCommands.contains node.token then [("movablelimits", "true")] else []) ++
    ((node.alignment.bind fun alignment => (Table.splitAlignment alignment).2).map
      fun rules => ("columnlines", " ".intercalate rules)).toList

/-- What is set on a table for what its body says. -/
def tableSets (lines spaces : Option String) : Attributes :=
  (lines.map fun lines => ("rowlines", lines)).toList ++
    (spaces.map fun spaces => ("columnspacing", spaces)).toList

/-- What is set on an operator: a fence does not stretch. -/
def operatorSets (font : Font) (node : Node) : Attributes :=
  node.attributes ++
    (if node.is "\\|" then [("fence", "false")]
      else if node.is "\\smallint" then [("largeop", "false")] else []) ++
    if Glyph.fences.contains node.token then ("stretchy", "false") :: font.sets .fence
    else font.sets .operator

/-- What is set on a cell, first for its column and then for the fills in it. -/
def cellSets (column fill : Option String) : Attributes :=
  (column.map fun word => ("columnalign", word)).toList ++
    (fill.map fun word => ("columnalign", word)).toList

/-- What is set where it depends on nothing. -/
def fixedSets : List Attributes := [
  [],
  [("scriptlevel", "0")],
  [("scriptlevel", "1")],
  [("displaystyle", "true"), ("scriptlevel", "0")],
  [("displaystyle", "false"), ("scriptlevel", "0")],
  [("displaystyle", "false"), ("scriptlevel", "1")],
  [("width", "0")],
  [("depth", "0.25em")],
  [("height", "0"), ("depth", "0")],
  [("height", "-0.5ex"), ("depth", "0.5ex"), ("voffset", "-0.5ex")],
  [("height", "0.21ex"), ("depth", "-0.21ex"), ("voffset", "0.21ex")],
  Style.stretching ++ [("form", "prefix")]]

/-- What is set on an element that is drawn for a source, in order. -/
inductive Sets (symbols : SymbolTable) (source : String) : Attributes → Prop where
  | formula (uri : Option String) (display : String) :
      Sets symbols source ((uri.map fun uri => ("xmlns", uri)).toList ++ [("display", display)])
  | fixed {history : Attributes} (mem : history ∈ fixedSets) : Sets symbols source history
  | kern (width : String) : Sets symbols source [("width", width)]
  | fence (size : String) : Sets symbols source [("minsize", size), ("maxsize", size)]
  | letter (font : Font) (kind : GlyphKind) : Sets symbols source (font.sets kind)
  | switch {node : Node} {attributes : Attributes} (occurs : Occurs symbols source node)
      (named : Style.switches.lookup node.token = some attributes) : Sets symbols source attributes
  | accent {node : Node} {glyph : String} {attributes : Attributes}
      (occurs : Occurs symbols source node)
      (named : Style.accents.lookup node.token = some (glyph, attributes)) :
      Sets symbols source attributes
  | own {node : Node} (occurs : Occurs symbols source node) : Sets symbols source node.attributes
  | glyph {node : Node} (occurs : Occurs symbols source node) (font : Font) (kind : GlyphKind) :
      Sets symbols source (node.attributes ++ font.sets kind)
  | operator {node : Node} (occurs : Occurs symbols source node) (font : Font) :
      Sets symbols source (operatorSets font node)
  | label {node : Node} (occurs : Occurs symbols source node) (font : Font) :
      Sets symbols source (("movablelimits", "true") :: node.attributes ++ font.sets .operator)
  | command {node : Node} {style : Style} (occurs : Occurs symbols source node)
      (named : Style.of? node.token = some style) (font : Font) (lines spaces : Option String) :
      Sets symbols source (shellSets node style ++ font.sets .text ++ tableSets lines spaces)
  | cell (column fill : Option String) : Sets symbols source (cellSets column fill)

/-- What is set for a source is set for every other one that is drawn from the same nodes and more. -/
theorem Sets.mono {symbols : SymbolTable} {formula source : String}
    (more : ∀ node, Occurs symbols formula node → Occurs symbols source node) {history : Attributes}
    (sets : Sets symbols formula history) : Sets symbols source history := by
  cases sets with
  | formula uri display => exact .formula uri display
  | fixed mem => exact .fixed mem
  | kern width => exact .kern width
  | fence size => exact .fence size
  | letter font kind => exact .letter font kind
  | switch occurs named => exact .switch (more _ occurs) named
  | accent occurs named => exact .accent (more _ occurs) named
  | own occurs => exact .own (more _ occurs)
  | glyph occurs font kind => exact .glyph (more _ occurs) font kind
  | operator occurs font => exact .operator (more _ occurs) font
  | label occurs font => exact .label (more _ occurs) font
  | command occurs named font lines spaces => exact .command (more _ occurs) named font lines spaces
  | cell column fill => exact .cell column fill

/-- Attributes that are left of what is set on an element for a source. -/
def Accounted (symbols : SymbolTable) (source : String) (attributes : Attributes) : Prop :=
  ∃ history, Sets symbols source history ∧ attributes = Attributes.setAll [] history

/-- The attributes of an element, and of all within it, are accounted for. -/
def AccountedTree (symbols : SymbolTable) (source : String) (e : Element) : Prop :=
  e.All fun e => Accounted symbols source e.attributes

def AccountedAll (symbols : SymbolTable) (source : String) (list : List Element) : Prop :=
  ∀ e ∈ list, AccountedTree symbols source e

theorem setAll_tidy {attributes : Attributes} (tidy : attributes.Tidy) :
    Attributes.setAll [] attributes = attributes :=
  Attributes.setAll_distinct [] tidy.2

theorem setAll_fixed {history : Attributes} (mem : history ∈ fixedSets) :
    Attributes.setAll [] history = history := by
  have fixed : ∀ history ∈ fixedSets, Attributes.setAll [] history = history := by decide +kernel
  exact fixed history mem

section

variable {symbols : SymbolTable} {source : String}

theorem Occurs.setAll {node : Node} (occurs : Occurs symbols source node) :
    Attributes.setAll [] node.attributes = node.attributes :=
  setAll_tidy occurs.tidy.attributes.tidy

@[simp] theorem accountedAll_nil : AccountedAll symbols source [] := by
  simp [AccountedAll]

@[simp] theorem accountedAll_cons {e : Element} {rest : List Element} :
    AccountedAll symbols source (e :: rest) ↔
      AccountedTree symbols source e ∧ AccountedAll symbols source rest :=
  List.forall_mem_cons

@[simp] theorem accountedAll_append {front back : List Element} :
    AccountedAll symbols source (front ++ back) ↔
      AccountedAll symbols source front ∧ AccountedAll symbols source back :=
  List.forall_mem_append

theorem accounted {e : Element} {history : Attributes} (sets : Sets symbols source history)
    (left : e.attributes = Attributes.setAll [] history)
    (below : AccountedAll symbols source e.children) :
    AccountedTree symbols source e :=
  .intro ⟨history, sets, left⟩ below

theorem accounted_fixed {tag text : String} {attributes : Attributes} {children : List Element}
    (mem : attributes ∈ fixedSets) (below : AccountedAll symbols source children) :
    AccountedTree symbols source ⟨tag, attributes, text, children⟩ :=
  accounted (.fixed mem) (setAll_fixed mem).symm below

theorem accounted_bare (tag text : String) {children : List Element}
    (below : AccountedAll symbols source children) :
    AccountedTree symbols source ⟨tag, [], text, children⟩ :=
  accounted_fixed List.mem_cons_self below

/-! ## Glyphs -/

theorem accounted_kern (width : String) : AccountedTree symbols source (Glyph.kern width) :=
  accounted (.kern width) rfl accountedAll_nil

/-- An element with a text, on which nothing is set but by a font. -/
theorem accounted_letter (tag text : String) (font : Font) (kind : GlyphKind) :
    AccountedTree symbols source ((Element.ofText tag text).setFont font kind) :=
  accounted (.letter font kind) (Element.attributes_setFont _ font kind) (by simp [Element.ofText])

theorem accounted_logo (font : Font) :
    AccountedAll symbols source (Glyph.logoStart font ++ Glyph.logoEnd font) := by
  have letter (text : String) : AccountedTree symbols source (Glyph.letter font text) :=
    accounted_letter "mi" text font .identifier
  have row (text : String) :
      AccountedTree symbols source (Element.holding "mrow" [Glyph.letter font text]) :=
    accounted_bare "mrow" "" (by simp [letter])
  have lowered : AccountedTree symbols source ⟨"mpadded",
      [("height", "-0.5ex"), ("depth", "0.5ex"), ("voffset", "-0.5ex")], "",
      [Element.holding "mrow" [Glyph.letter font "E"]]⟩ :=
    accounted_fixed (by decide) (by simp [row])
  have small : AccountedTree symbols source ⟨"mstyle",
      [("displaystyle", "false"), ("scriptlevel", "1")], "",
      [Element.holding "mrow" [Glyph.letter font "A"]]⟩ :=
    accounted_fixed (by decide) (by simp [row])
  have raised : AccountedTree symbols source ⟨"mpadded",
      [("height", "0.21ex"), ("depth", "-0.21ex"), ("voffset", "0.21ex")], "",
      [⟨"mstyle", [("displaystyle", "false"), ("scriptlevel", "1")], "",
        [Element.holding "mrow" [Glyph.letter font "A"]]⟩]⟩ :=
    accounted_fixed (by decide) (by simp [small])
  simp [Glyph.logoStart, Glyph.logoEnd, letter, accounted_kern, lowered, raised]

section

variable {node : Node} (occurs : Occurs symbols source node)

include occurs

/-- An element that has the attributes of a node and no others. -/
theorem accounted_own (tag text : String) {children : List Element}
    (below : AccountedAll symbols source children) :
    AccountedTree symbols source ⟨tag, node.attributes, text, children⟩ :=
  accounted (.own occurs) occurs.setAll.symm below

theorem accounted_operator (font : Font) : AccountedTree symbols source (Glyph.operator symbols font node) := by
  refine accounted (.operator occurs font) ?_ ?_
  · unfold operatorSets Glyph.operator
    rw [Attributes.setAll_append, Attributes.setAll_append, occurs.setAll]
    dsimp only
    split
    · rw [Element.attributes_setFont]
      split
      · rfl
      · split <;> rfl
    · rw [Element.attributes_setFont]
      split
      · rfl
      · split <;> rfl
  · have childless : (Glyph.operator symbols font node).children = [] := by
      unfold Glyph.operator
      dsimp only
      repeat' split
      all_goals simp [Element.setText, Element.setAttribute, Element.shell]
    rw [childless]
    exact accountedAll_nil

theorem accounted_glyph (tag text : String) (font : Font) (kind : GlyphKind) :
    AccountedTree symbols source
      (((Element.shell tag node.attributes).setText text).setFont font kind) := by
  refine accounted (.glyph occurs font kind) ?_ ?_
  · rw [Element.attributes_setFont, Attributes.setAll_append, occurs.setAll]
    rfl
  · rw [Element.children_setFont]
    exact accountedAll_nil

theorem accounted_draw (font : Font) : AccountedTree symbols source (Glyph.draw symbols font node) := by
  have parts : AccountedAll symbols source (Glyph.logoStart font ++ Glyph.logoEnd font) :=
    accounted_logo font
  have logo := accountedAll_append.mp parts
  have row {children : List Element} (below : AccountedAll symbols source children) :
      AccountedTree symbols source ((Element.shell "mrow" node.attributes).appendChildren children) :=
    accounted_own occurs "mrow" "" below
  unfold Glyph.draw
  dsimp only
  split
  · exact accounted_glyph occurs _ _ _ _
  split
  · exact accounted_operator occurs font
  split
  · exact accounted_glyph occurs _ _ _ _
  split
  · exact accounted_glyph occurs _ _ _ _
  split
  · have bar : AccountedTree symbols source (Element.ofText "mtext" "\u29f8") :=
      accounted_bare "mtext" _ accountedAll_nil
    exact accounted_fixed (by decide) (by simp [bar])
  split
  · refine accounted (.label occurs font) ?_ ?_
    · rw [Element.attributes_setFont, Attributes.setAll_append]
      rfl
    · rw [Element.children_setFont]
      exact accountedAll_nil
  split
  · apply row
    intro e mem
    obtain ⟨part, _, rfl⟩ := List.mem_map.mp mem
    exact accounted_bare "mo" part accountedAll_nil
  split
  · exact row (accountedAll_append.mpr logo)
  split
  · exact row logo.2
  split
  · exact accounted_own occurs "mo" _ accountedAll_nil
  · exact accounted_glyph occurs _ _ _ _

end

/-! ## Tables -/

/-- All that is drawn for the items of a table body is accounted for. -/
def AccountedItems (symbols : SymbolTable) (source : String) (items : List Table.Item) : Prop :=
  ∀ item ∈ items, AccountedAll symbols source item.2

theorem accounted_cell (paired : Bool) (letters : List Char) (column : Nat) {items : List Table.Item}
    (below : AccountedItems symbols source items) :
    AccountedTree symbols source (Table.cell paired letters column items) := by
  refine accounted (.cell (Table.columnAlignment? letters column) (Table.fillAlignment? items)) ?_ ?_
  · -- The alignment of the fills is set behind that of the column, so it is the one that stays.
    unfold cellSets Table.cell
    cases Table.fillAlignment? items with
    | none => cases Table.columnAlignment? letters column <;> rfl
    | some side => cases Table.columnAlignment? letters column <;> rfl
  · apply accountedAll_append.mpr
    constructor
    · split
      · have lead : AccountedTree symbols source (Element.ofTag "mi") :=
          accounted_bare "mi" "" accountedAll_nil
        simp [lead]
      · exact accountedAll_nil
    · intro e mem
      obtain ⟨item, drawn, mem⟩ := List.mem_flatMap.mp mem
      exact below item (List.mem_filter.mp drawn).1 e mem

theorem accounted_rows (paired : Bool) (letters : List Char) {body : List Table.Item}
    (below : AccountedItems symbols source body) :
    AccountedAll symbols source (Table.rows paired letters body) := by
  have all : AccountedAll symbols source ((Table.rowsOf body).map (Table.row paired letters)) := by
    intro e mem
    obtain ⟨cells, inBody, rfl⟩ := List.mem_map.mp mem
    refine accounted_bare "mtr" "" fun cell inside => ?_
    obtain ⟨column, inRow, rfl⟩ := List.mem_mapIdx.mp inside
    refine accounted_cell paired letters column fun item inCell => ?_
    exact below item (Table.mem_cells.mp ⟨cells, inBody, _, List.getElem_mem inRow, inCell⟩).1
  unfold Table.rows
  dsimp only
  split
  · exact fun e mem => all e (List.dropLast_subset _ mem)
  · exact all

theorem attributes_fillIn (command : String) (letters : List Char) (body : List Table.Item)
    (table : Element) : ∃ lines spaces,
      (Table.fillIn command letters body table).attributes =
        table.attributes.setAll (tableSets lines spaces) := by
  unfold Table.fillIn
  dsimp only
  split
  · split
    · exact ⟨some _, some _, rfl⟩
    · exact ⟨none, some _, rfl⟩
  · split
    · exact ⟨some _, none, rfl⟩
    · exact ⟨none, none, rfl⟩

/-! ## Commands -/

/-- The formulas in the boxes of a source are drawn as what is accounted for. -/
def AccountedContext (symbols : SymbolTable) (source : String) (ctx : Context) : Prop :=
  ctx.symbols = symbols ∧ ∀ node, Occurs symbols source node → ∀ text, node.text = some text →
    ∀ formula, (.math, formula) ∈ Box.parts text → ∀ elements, ctx.boxed formula = some elements →
      AccountedAll symbols source elements

theorem AccountedContext.within {ctx : Context} (good : AccountedContext symbols source ctx) (e : Element) :
    AccountedContext symbols source (ctx.within e) :=
  good

theorem accounted_fence (size name : Option String) :
    AccountedAll symbols source (fence symbols size name) := by
  cases name with
  | none => exact accountedAll_nil
  | some name =>
    refine accountedAll_cons.mpr ⟨?_, accountedAll_nil⟩
    cases size with
    | none => exact accounted_bare "mo" _ accountedAll_nil
    | some size => exact accounted (.fence size) rfl accountedAll_nil

theorem accounted_scope {command : String} {scope : Element}
    (found : scope? symbols command = some scope) :
    scope.attributes ∈ fixedSets ∧ AccountedAll symbols source scope.children := by
  unfold scope? at found
  split at found
  case h_4 =>
    have brace : AccountedTree symbols source ⟨"mo",
        Style.stretching ++ [("form", "prefix")], symbols.textOf "\\\x7b", []⟩ :=
      accounted_fixed (by decide) accountedAll_nil
    cases Option.some.inj found
    exact ⟨List.mem_cons_self, accountedAll_cons.mpr ⟨brace, accountedAll_nil⟩⟩
  case h_14 => contradiction
  all_goals
    cases Option.some.inj found
    exact ⟨by decide, accountedAll_nil⟩

theorem attributes_labelled (ctx : Context) (node : Node) (style : Style) (e : Element) :
    ∃ font : Font, (labelled ctx node style e).attributes = e.attributes.setAll (font.sets .text) := by
  have same : ∃ font : Font, e.attributes = e.attributes.setAll (font.sets .text) := ⟨.plain, rfl⟩
  unfold labelled
  dsimp only
  split
  · exact same
  split
  · exact same
  split
  · exact same
  split
  · split
    · exact same
    split
    · exact same
    · exact ⟨ctx.font, Element.attributes_setFont _ _ _⟩
  · split
    · split
      · exact same
      · exact same
    · exact same

theorem accounted_labelled (ctx : Context) (node : Node) (style : Style) {e : Element}
    (below : AccountedAll symbols source e.children) :
    AccountedAll symbols source (labelled ctx node style e).children := by
  unfold labelled
  dsimp only
  split
  · exact below
  split
  · exact below
  split
  · refine accountedAll_append.mpr ⟨below, accountedAll_cons.mpr ⟨?_, accountedAll_nil⟩⟩
    have arrow (text : String) : AccountedTree symbols source (Element.ofText "mo" text) :=
      accounted_bare "mo" text accountedAll_nil
    exact accounted_fixed (by decide) (accountedAll_cons.mpr ⟨arrow _, accountedAll_nil⟩)
  split
  · split
    · exact below
    split
    · exact accountedAll_append.mpr
        ⟨below, accountedAll_cons.mpr ⟨accounted_letter _ _ _ _, accountedAll_nil⟩⟩
    · rw [Element.children_setFont]
      exact below
  · split
    · split
      · exact below
      · exact below
    · exact below

theorem attributes_shell {node : Node} {style : Style} (named : Style.of? node.token = some style)
    (inner : Inner) :
    (shell node style inner).attributes = Attributes.setAll [] (shellSets node style) := by
  have own (e : Element) :
      (if node.is "\\skew" then e else e.setAttributes node.attributes).attributes =
        e.attributes.setAll (if node.is "\\skew" then [] else node.attributes) := by
    split <;> rfl
  have limited (e : Element) :
      (if Style.limitCommands.contains node.token then e.setAttribute "movablelimits" "true"
        else e).attributes =
        e.attributes.setAll
          (if Style.limitCommands.contains node.token then [("movablelimits", "true")] else []) := by
    split <;> rfl
  unfold shellSets shell
  rw [Attributes.setAll_append, Attributes.setAll_append, Attributes.setAll_append,
    setAll_tidy (Style.tidy_of named).2]
  cases node.alignment.bind fun alignment => (Table.splitAlignment alignment).2 with
  | none => exact (limited _).trans (congrArg (Attributes.setAll · _) (own _))
  | some rules =>
    exact congrArg (Attributes.set "columnlines" _)
      ((limited _).trans (congrArg (Attributes.setAll · _) (own _)))

theorem attributes_accented (node : Node) (e : Element) :
    (accented node e).attributes = e.attributes := by
  unfold accented
  split <;> rfl

/-- The children of a node are drawn as what is accounted for, wherever boxes are. -/
structure AccountedInner (symbols : SymbolTable) (source : String) (inner : Inner) : Prop where
  all : ∀ ctx, AccountedContext symbols source ctx → AccountedAll symbols source (inner.all ctx)
  each : ∀ ctx, AccountedContext symbols source ctx → AccountedItems symbols source (inner.each ctx)
  spaced : ∀ ctx, AccountedContext symbols source ctx → ∀ space, AccountedTree symbols source space →
    AccountedAll symbols source (inner.spaced ctx space)

section

variable {node : Node} (occurs : Occurs symbols source node)

include occurs

theorem accounted_accented {e : Element} (below : AccountedAll symbols source e.children) :
    AccountedAll symbols source (accented node e).children := by
  unfold accented
  split
  · rename_i glyph attributes found
    have neat : attributes.Tidy := Style.accents_tidy _ (Style.mem_of_lookup found)
    exact accountedAll_append.mpr ⟨below, accountedAll_cons.mpr
      ⟨accounted (.accent occurs found) (setAll_tidy neat).symm accountedAll_nil, accountedAll_nil⟩⟩
  · exact below

variable {ctx : Context} (good : AccountedContext symbols source ctx)

include good

theorem accounted_boxParts {style : Style} (named : Style.of? node.token = some style) (inner : Inner)
    {text : String} (told : node.text = some text) :
    AccountedAll symbols source (boxParts ctx text (shell node style inner)) := by
  intro part mem
  obtain ⟨⟨mode, run⟩, inText, rfl⟩ := List.mem_map.mp mem
  dsimp only
  split
  · rename_i elements drawn
    split at drawn
    · rename_i math
      subst math
      exact accounted_bare "mrow" "" (good.2 node occurs text told run inText elements drawn)
    · contradiction
  · refine accounted (.command occurs named ctx.font none none) ?_ ?_
    · rw [Element.attributes_setFont, Attributes.setAll_append, Attributes.setAll_append,
        ← attributes_shell named inner]
      rfl
    · rw [Element.children_setFont]
      change AccountedAll symbols source (shell node style inner).children
      rw [children_shell]
      exact accountedAll_nil

variable {inner : Inner} (held : AccountedInner symbols source inner)

include held

/-- The children of a command are put into its element, on which only a table sets attributes. -/
theorem accounted_filled {e : Element} (below : AccountedAll symbols source e.children) :
    (∃ lines spaces, (filled ctx node inner e).attributes =
        e.attributes.setAll (tableSets lines spaces)) ∧
      AccountedAll symbols source (filled ctx node inner e).children := by
  have here := good.within e
  have appended {added : List Element} (all : AccountedAll symbols source added) :
      (∃ lines spaces, (e.appendChildren added).attributes =
          e.attributes.setAll (tableSets lines spaces)) ∧
        AccountedAll symbols source (e.appendChildren added).children :=
    ⟨⟨none, none, rfl⟩, accountedAll_append.mpr ⟨below, all⟩⟩
  have plain := appended (held.all _ here)
  unfold filled
  dsimp only
  split
  · refine ⟨attributes_fillIn _ _ _ _, ?_⟩
    rw [Table.children_fillIn]
    exact accountedAll_append.mpr ⟨below, accounted_rows _ _ (held.each _ (here.within _))⟩
  split
  · apply appended
    intro part mem
    obtain ⟨item, inside, rfl⟩ := List.mem_map.mp mem
    exact accounted_fixed (by decide) (held.each _ (here.within _) item inside)
  split
  · split
    · rename_i left right drawn
      have items := held.each _ here
      rw [drawn] at items
      have fill : AccountedTree symbols source
          (Drawing.styled [("scriptlevel", "0")] [Glyph.kern "-0.167em"]) :=
        accounted_fixed (by decide) (by simp [accounted_kern])
      refine appended (accountedAll_append.mpr ⟨items left (by simp), ?_⟩)
      exact accountedAll_cons.mpr ⟨fill, items right (by simp)⟩
    · exact plain
  split
  · have space := accounted_own occurs "mspace" "" accountedAll_nil
    exact appended (held.spaced _ here (skewSpace node) space)
  split
  · apply appended
    intro part mem
    obtain ⟨item, inside, rfl⟩ := List.mem_map.mp mem
    have strut : AccountedTree symbols source (Element.shell "mspace" [("depth", "0.25em")]) :=
      accounted_fixed (by decide) accountedAll_nil
    have drawn : AccountedAll symbols source
        (item.2 ++ [Element.shell "mspace" [("depth", "0.25em")]]) :=
      accountedAll_append.mpr
        ⟨held.each _ (here.within _) item inside, accountedAll_cons.mpr ⟨strut, accountedAll_nil⟩⟩
    exact accounted_bare "mpadded" "" drawn
  · exact plain

variable {style : Style} (named : Style.of? node.token = some style)

include named

theorem accounted_body : AccountedAll symbols source (body ctx node style inner) := by
  obtain ⟨font, labelled_sets⟩ := attributes_labelled ctx node style (shell node style inner)
  rw [attributes_shell named, ← Attributes.setAll_append] at labelled_sets
  have below : AccountedAll symbols source (labelled ctx node style (shell node style inner)).children := by
    apply accounted_labelled
    rw [children_shell]
    exact accountedAll_nil
  have label : AccountedTree symbols source (labelled ctx node style (shell node style inner)) :=
    accounted (.command occurs named font none none)
      (by rw [Attributes.setAll_append, ← labelled_sets]; rfl) below
  have all := held.all ctx good
  unfold body
  dsimp only
  split
  · exact accountedAll_cons.mpr ⟨label, all⟩
  split
  · exact accountedAll_cons.mpr ⟨label, accountedAll_cons.mpr ⟨accounted_kern _, all⟩⟩
  · obtain ⟨⟨lines, spaces, table_sets⟩, inside⟩ := accounted_filled occurs good held below
    refine accountedAll_cons.mpr ⟨accounted (.command occurs named font lines spaces) ?_
      (accounted_accented occurs inside), accountedAll_nil⟩
    rw [attributes_accented, table_sets, labelled_sets, ← Attributes.setAll_append]

theorem accounted_content : AccountedAll symbols source (content ctx node style inner) := by
  have kern (width : Option String) : AccountedAll symbols source
      (width.map fun width => Glyph.kern (Skew.opposite width)).toList := by
    cases width with
    | none => exact accountedAll_nil
    | some width => exact accountedAll_cons.mpr ⟨accounted_kern _, accountedAll_nil⟩
  unfold content
  split
  · rename_i text told
    split at told
    · exact accounted_boxParts occurs good named inner told
    · contradiction
  · simp only [accountedAll_append]
    rw [good.1]
    exact ⟨⟨⟨accounted_fence _ _, accounted_body occurs good held named⟩, accounted_fence _ _⟩, kern _⟩

theorem accounted_inScope : AccountedAll symbols source (inScope ctx node style inner) := by
  unfold inScope
  split
  · rename_i scope found
    rw [good.1] at found
    obtain ⟨fixed, below⟩ : scope.attributes ∈ fixedSets ∧ AccountedAll symbols source scope.children :=
      accounted_scope found
    refine accountedAll_cons.mpr ⟨accounted (.fixed fixed) (setAll_fixed fixed).symm ?_, accountedAll_nil⟩
    exact accountedAll_append.mpr ⟨below, accounted_content occurs (good.within scope) held named⟩
  · exact accounted_content occurs good held named

theorem accounted_command : AccountedAll symbols source (command ctx node style inner) := by
  have drawn := accounted_inScope occurs good held named
  unfold command
  split
  · exact accountedAll_cons.mpr ⟨accounted_kern _, drawn⟩
  · exact drawn

end

end

end Draw

end FormulaMarkup

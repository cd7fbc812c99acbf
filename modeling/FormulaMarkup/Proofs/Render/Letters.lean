import FormulaMarkup.Converter
import FormulaMarkup.Proofs.Bytes.Scanning
import FormulaMarkup.Proofs.Parsing.Leaves
import FormulaMarkup.Proofs.Render.Fits

/-!
Letters from the tree to the markup. A letter that is a leaf of the tree is drawn as an identifier
with that letter as its text, at least once for each leaf, as long as no node around it loses some of
what it holds. A node loses it whose token means a switch for what follows it, or a line, a fill or
the end of a cell: only an environment of such a name holds anything. A skew draws one node.
-/
namespace FormulaMarkup

/-! ## Identifiers of elements -/

namespace Element

mutual

/-- How many elements with the tag of an identifier have a text, at any depth. -/
def identifiers (name : String) : Element → Nat
  | ⟨tag, _, text, children⟩ =>
    (if tag = "mi" ∧ text = name then 1 else 0) + identifiersOf name children

def identifiersOf (name : String) : List Element → Nat
  | [] => 0
  | first :: rest => identifiers name first + identifiersOf name rest

end

variable (name : String)

@[simp] theorem identifiersOf_nil : identifiersOf name [] = 0 := by
  rw [identifiersOf]

@[simp] theorem identifiersOf_cons (first : Element) (rest : List Element) :
    identifiersOf name (first :: rest) = identifiers name first + identifiersOf name rest := by
  rw [identifiersOf]

@[simp] theorem identifiersOf_append (front back : List Element) :
    identifiersOf name (front ++ back) = identifiersOf name front + identifiersOf name back := by
  induction front with
  | nil => simp
  | cons first rest ih =>
    rw [List.cons_append, identifiersOf_cons, identifiersOf_cons, ih]
    omega

theorem identifiersOf_children (e : Element) : identifiersOf name e.children ≤ e.identifiers name := by
  obtain ⟨tag, attributes, text, children⟩ := e
  rw [identifiers]
  exact Nat.le_add_left _ _

theorem identifiers_of_tag {e : Element} (other : e.tag ≠ "mi") :
    e.identifiers name = identifiersOf name e.children := by
  obtain ⟨tag, attributes, text, children⟩ := e
  rw [identifiers, if_neg fun both => other both.1, Nat.zero_add]

theorem identifiers_pos {e : Element} (tag : e.tag = "mi") (text : e.text = name) :
    1 ≤ e.identifiers name := by
  obtain ⟨_, attributes, _, children⟩ := e
  rw [identifiers, if_pos ⟨tag, text⟩]
  exact Nat.le_add_right _ _

theorem identifiers_appendChildren (e : Element) (added : List Element) :
    (e.appendChildren added).identifiers name = e.identifiers name + identifiersOf name added := by
  obtain ⟨tag, attributes, text, children⟩ := e
  change identifiers name ⟨tag, attributes, text, children ++ added⟩ = _
  rw [identifiers, identifiers, identifiersOf_append]
  omega

theorem identifiers_appendChild (e child : Element) :
    (e.appendChild child).identifiers name = e.identifiers name + child.identifiers name := by
  change (e.appendChildren [child]).identifiers name = _
  rw [identifiers_appendChildren, identifiersOf_cons, identifiersOf_nil, Nat.add_zero]

theorem identifiersOf_wrapped (wrap : Element) (last : List Element) (items : List Table.Item) :
    identifiersOf name (items.flatMap (·.2)) ≤
      identifiersOf name (items.map fun item => wrap.appendChildren (item.2 ++ last)) := by
  induction items with
  | nil => simp
  | cons item rest ih =>
    rw [List.flatMap_cons, List.map_cons, identifiersOf_append, identifiersOf_cons,
      identifiers_appendChildren, identifiersOf_append]
    omega

end Element

open Element (identifiers identifiersOf)

/-! ## Leaves of nodes -/

namespace Node

/-- Whether a token says something about what follows it and is not drawn, nor is what it holds. -/
def hides (token : String) : Bool :=
  (Style.switches.lookup token).isSome ||
    ((Font.ofRest.lookup token).isSome && (Font.ofArgument.lookup token).isNone)

/-- Whether a node of a table body stands in a cell. -/
def standsInCell (token : String) : Bool :=
  Table.role token = .content || Table.role token = .group

mutual

/-- How many of the leaves with a token stand where they are drawn. -/
def shown (name : String) : Node → Nat
  | ⟨token, none, _, _, _, _, _⟩ => if token = name then 1 else 0
  | ⟨token, some children, _, _, text, _, _⟩ =>
    if hides token || token == "\\hbox" && text.isSome then 0
    else if Style.tableCommands.contains token then shownOf name standsInCell children
    else if token == "\\skew" then shownFirst name children
    else shownOf name (fun _ => true) children

def shownOf (name : String) (kept : String → Bool) : List Node → Nat
  | [] => 0
  | first :: rest => (if kept first.token then shown name first else 0) + shownOf name kept rest

def shownFirst (name : String) : List Node → Nat
  | [] => 0
  | first :: _ => shown name first

end

theorem shownOf_le (name : String) (kept : String → Bool) (nodes : List Node) :
    shownOf name kept nodes ≤ shownOf name (fun _ => true) nodes := by
  induction nodes with
  | nil => exact Nat.le_refl _
  | cons first rest ih =>
    rw [shownOf, shownOf]
    split
    · exact Nat.add_le_add_left ih _
    · exact Nat.add_le_add (Nat.zero_le _) ih

theorem shownFirst_le (name : String) (nodes : List Node) :
    shownFirst name nodes ≤ shownOf name (fun _ => true) nodes := by
  cases nodes with
  | nil => exact Nat.le_refl _
  | cons first rest =>
    rw [shownFirst, shownOf]
    exact Nat.le_add_right _ _

/-- How many leaves a command shows of what it holds. -/
def shownIn (name token : String) (children : List Node) : Nat :=
  if Style.tableCommands.contains token then shownOf name standsInCell children
  else if token == "\\skew" then shownFirst name children
  else shownOf name (fun _ => true) children

theorem shownIn_le (name token : String) (children : List Node) :
    shownIn name token children ≤ shownOf name (fun _ => true) children := by
  unfold shownIn
  split
  · exact shownOf_le name standsInCell children
  · split
    · exact shownFirst_le name children
    · exact Nat.le_refl _

theorem shown_leaf (name : String) {node : Node} (leaf : node.children = none) :
    node.shown name = if node.token = name then 1 else 0 := by
  obtain ⟨token, children, delimiter, alignment, text, attributes, modifier⟩ := node
  obtain rfl : children = none := leaf
  rw [shown]

theorem shown_held (name : String) {node : Node} {children : List Node}
    (held : node.children = some children) :
    node.shown name = if hides node.token || node.token == "\\hbox" && node.text.isSome then 0
      else shownIn name node.token children := by
  obtain ⟨token, children', delimiter, alignment, text, attributes, modifier⟩ := node
  obtain rfl : children' = some children := held
  rw [shown]
  rfl

end Node

/-! ## Letters as leaves -/

theorem ne_singleton_of_head {c : Char} (letter : c.isAlpha) {word : String}
    (marked : word.toList.head?.all (! ·.isAlpha)) : word ≠ String.singleton c := by
  rintro rfl
  simp [letter] at marked

/- No letter is a name of a table whose names all begin with something else. -/
theorem lookup_letter {α : Type} {c : Char} (letter : c.isAlpha) {table : List (String × α)}
    (marked : table.all fun entry => entry.1.toList.head?.all (! ·.isAlpha)) :
    table.lookup (String.singleton c) = none := by
  rw [List.lookup_eq_none_iff]
  intro entry listed
  have other := ne_singleton_of_head letter (List.all_eq_true.mp marked entry listed)
  simpa using other.symm

theorem contains_letter {c : Char} (letter : c.isAlpha) {words : List String}
    (marked : words.all fun word => word.toList.head?.all (! ·.isAlpha)) :
    words.contains (String.singleton c) = false := by
  rw [List.contains_eq_any_beq, List.any_eq_false]
  intro word listed
  have other := ne_singleton_of_head letter (List.all_eq_true.mp marked word listed)
  simpa using other.symm

/- A letter that is drawn as one: an ASCII letter whose code point, if there is one, is none of those
of the operators. -/
structure PlainLetter (symbols : SymbolTable) (c : Char) : Prop where
  letter : c.isAlpha
  plain : (symbols.codePoint? (String.singleton c)).any Glyph.isOperatorCode = false

theorem begins_letter {c : Char} (letter : c.isAlpha) {word : String}
    (marked : word.toList.head?.any (! ·.isAlpha)) : Word.begins word (String.singleton c) = false := by
  unfold Word.begins
  cases written : word.toList with
  | nil =>
    rw [written] at marked
    contradiction
  | cons d ds =>
    rw [written] at marked
    have other : d ≠ c := by
      rintro rfl
      simp [letter] at marked
    simp [List.isPrefixOf, other]

theorem not_digit_of_letter {c : Char} (letter : c.isAlpha) :
    (String.singleton c).toList.any Char.isDigit = false := by
  have other : c.isDigit = false := by
    rw [Bool.eq_false_iff]
    intro digit
    have := Bytes.isAlpha_iff.mp letter
    have := Bytes.isDigit_iff.mp digit
    omega
  simpa using other

theorem Glyph.draw_letter {symbols : SymbolTable} {c : Char} (known : PlainLetter symbols c) (font : Font)
    {node : Node} (token : node.token = String.singleton c) :
    1 ≤ (Glyph.draw symbols font node).identifiers (String.singleton c) := by
  have letter := known.letter
  have word {other : String} (marked : other.toList.head?.all (! ·.isAlpha)) :
      (String.singleton c == other) = false := beq_eq_false_iff_ne.mpr (ne_singleton_of_head letter marked).symm
  have drawn : Glyph.draw symbols font node =
      ((Element.shell "mi" node.attributes).setText (String.singleton c)).setFont font .identifier := by
    have named : Word.inside? Word.operatorStart (String.singleton c) = none := by
      rw [Word.inside?, begins_letter letter (by decide)]
      rfl
    unfold Glyph.draw
    rw [token]
    dsimp only
    rw [not_digit_of_letter letter, contains_letter letter (by decide +kernel), known.plain,
      contains_letter letter (by decide +kernel), word (by decide),
      lookup_letter letter (by decide +kernel), word (by decide), word (by decide), word (by decide),
      named, begins_letter letter (by decide)]
    rfl
  rw [drawn]
  apply Element.identifiers_pos
  · rw [Element.tag_setFont]
    rfl
  · unfold Element.setFont
    split
    · rfl
    · rfl

/-! ## Tables -/

namespace Table

/- What the cells of a table show of some items. -/
def drawnOf (items : List Item) : List Element := (items.filter Item.isDrawn).flatMap (·.2)

theorem drawnOf_append (front back : List Item) : drawnOf (front ++ back) = drawnOf front ++ drawnOf back := by
  rw [drawnOf, List.filter_append, List.flatMap_append]
  rfl

variable (name : String) (paired : Bool) (letters : List Char)

theorem cell_shows (column : Nat) (items : List Item) :
    identifiersOf name (drawnOf items) ≤ (cell paired letters column items).identifiers name := by
  have inside := Element.identifiersOf_children name (cell paired letters column items)
  unfold cell at inside ⊢
  rw [Element.identifiersOf_append] at inside
  exact Nat.le_of_add_left_le inside

theorem row_shows (cells : List (List Item)) :
    identifiersOf name (drawnOf cells.flatten) ≤ (row paired letters cells).identifiers name := by
  have shows (f : Nat → List Item → Element)
      (each : ∀ column items, identifiersOf name (drawnOf items) ≤ (f column items).identifiers name) :
      identifiersOf name (drawnOf cells.flatten) ≤ identifiersOf name (cells.mapIdx f) := by
    induction cells generalizing f with
    | nil => exact Nat.le_refl _
    | cons items rest ih =>
      rw [List.flatten_cons, drawnOf_append, List.mapIdx_cons, Element.identifiersOf_append,
        Element.identifiersOf_cons]
      exact Nat.add_le_add (each 0 items) (ih _ fun column => each (column + 1))
  have inside := Element.identifiersOf_children name (row paired letters cells)
  exact Nat.le_trans (shows _ fun column items => cell_shows name paired letters column items) inside

theorem trailing_shows {cells : List (List Item)} (trailing : isTrailing (row paired letters cells) = true) :
    (row paired letters cells).identifiers name = 0 := by
  unfold isTrailing at trailing
  split at trailing
  · rename_i only alone
    have listed : only ∈ (row paired letters cells).children := by
      rw [alone]
      exact List.mem_singleton_self only
    obtain ⟨column, inside, rfl⟩ := List.mem_mapIdx.mp listed
    rw [Element.isEmpty, Bool.and_eq_true, List.isEmpty_iff] at trailing
    rw [Element.identifiers_of_tag name (show "mtr" ≠ "mi" by decide), alone,
      Element.identifiersOf_cons, Element.identifiers_of_tag name (show "mtd" ≠ "mi" by decide),
      trailing.2]
    rfl
  · contradiction

/- The cells of the rows hold the items in order, but for those that end a cell or a row. -/
theorem drawnOf_rowsOf (body : List Item) : drawnOf (rowsOf body).flatten.flatten = drawnOf body := by
  have ends (item : Item) : (item.isDrawn && !decide (item.role = .cellEnd) &&
      !decide (item.role = .rowEnd)) = item.isDrawn := by
    unfold Item.isDrawn
    cases item.role <;> rfl
  unfold rowsOf
  split
  · rename_i empty
    rw [List.isEmpty_iff.mp empty]
    rfl
  · have cells : List.flatten ∘ List.splitOnP (fun item : Item => decide (item.role = .cellEnd)) =
        List.filter fun item => !decide (item.role = .cellEnd) := by
      funext line
      exact flatten_splitOnP _ line
    rw [List.flatten_flatten, List.map_map, cells, ← List.filter_flatten, flatten_splitOnP, drawnOf,
      List.filter_filter, List.filter_filter]
    simp only [ends]
    rfl

theorem rows_show (body : List Item) :
    identifiersOf name (drawnOf body) ≤ identifiersOf name (rows paired letters body) := by
  have all (lines : List (List (List Item))) : identifiersOf name (drawnOf lines.flatten.flatten) ≤
      identifiersOf name (lines.map (row paired letters)) := by
    induction lines with
    | nil => exact Nat.le_refl _
    | cons cells rest ih =>
      rw [List.flatten_cons, List.flatten_append, drawnOf_append, List.map_cons,
        Element.identifiersOf_append, Element.identifiersOf_cons]
      exact Nat.add_le_add (row_shows name paired letters cells) ih
  have whole := all (rowsOf body)
  rw [drawnOf_rowsOf] at whole
  unfold rows
  dsimp only
  split
  · rename_i trailing
    obtain ⟨last, found, trailing⟩ := (Option.any_eq_true _ _).mp trailing
    obtain ⟨cells, _, rfl⟩ := List.mem_map.mp (List.mem_of_getLast? found)
    rw [← List.dropLast_append_getLast? _ found, Element.identifiersOf_append,
      Element.identifiersOf_cons, trailing_shows name paired letters trailing] at whole
    simpa using whole
  · exact whole

end Table

/-! ## What commands show -/

/- What the children of a node are drawn as has their leaves as identifiers: those of all children,
those of the children that stand in cells, and those of the first one when it is skewed. -/
structure Inner.Holds (inner : Inner) (symbols : SymbolTable) (name : String) (children : List Node) :
    Prop where
  all : ∀ ctx, ctx.symbols = symbols →
    Node.shownOf name (fun _ => true) children ≤ identifiersOf name (inner.all ctx)
  each : ∀ ctx, ctx.symbols = symbols → ∀ kept : String → Bool, kept Word.braces →
    Node.shownOf name kept children ≤
      identifiersOf name (((inner.each ctx).filter fun item => kept item.1).flatMap (·.2))
  spaced : ∀ ctx, ctx.symbols = symbols → ∀ space,
    Node.shownFirst name children ≤ identifiersOf name (inner.spaced ctx space)

namespace Draw

variable {symbols : SymbolTable} {name : String} {children : List Node} {inner : Inner}

section Commands

variable (holds : inner.Holds symbols name children) {ctx : Context} (same : ctx.symbols = symbols)
  (node : Node)

include holds same

theorem filled_shows (e : Element) :
    Node.shownIn name node.token children ≤ (filled ctx node inner e).identifiers name := by
  have within : (ctx.within e).symbols = symbols := same
  have all := holds.all (ctx.within e) within
  have each (ctx : Context) (same : ctx.symbols = symbols) :=
    holds.each ctx same (fun _ => true) rfl
  simp only [List.filter_true] at each
  have pushed (list : List Element) : identifiersOf name list ≤ (e.appendChildren list).identifiers name := by
    rw [Element.identifiers_appendChildren]
    exact Nat.le_add_left _ _
  unfold filled Node.shownIn
  dsimp only
  cases table : Style.tableCommands.contains node.token with
  | true =>
    let cell := (ctx.within e).within (Element.ofTag "mtd")
    have cells := holds.each cell same Node.standsInCell (by decide)
    have filled (letters : List Char) := Element.identifiersOf_children name
      (Table.fillIn node.token letters (inner.each cell) e)
    simp only [Table.children_fillIn, Element.identifiersOf_append] at filled
    exact Nat.le_trans (Nat.le_trans cells (Table.rows_show name _ _ _))
      (Nat.le_of_add_left_le (filled _))
  | false =>
    simp only [Bool.false_eq_true, if_false]
    cases skewed : node.token == "\\skew" with
    | true =>
      have token : node.token = "\\skew" := eq_of_beq skewed
      rw [token]
      exact Nat.le_trans (holds.spaced _ within _) (pushed _)
    | false =>
      simp only [Bool.false_eq_true, if_false]
      split
      · have shows := Element.identifiersOf_wrapped name
          (Element.shell "mstyle" [("displaystyle", "false"), ("scriptlevel", "0")]) []
        simp only [List.append_nil] at shows
        apply Nat.le_trans ?_ (pushed _)
        apply Nat.le_trans ?_ (shows _)
        exact each _ same
      · split
        · split
          · rename_i left right drawn
            have both := each _ within
            rw [drawn] at both
            apply Nat.le_trans both
            apply Nat.le_trans _ (pushed _)
            simp only [List.flatMap_cons, List.flatMap_nil, List.append_nil,
              Element.identifiersOf_append, Element.identifiersOf_cons]
            omega
          · exact Nat.le_trans all (pushed _)
        · split
          · apply Nat.le_trans ?_ (pushed _)
            apply Nat.le_trans ?_ (Element.identifiersOf_wrapped name _ _ _)
            exact each _ same
          · exact Nat.le_trans all (pushed _)

theorem body_shows (style : Style) :
    Node.shownIn name node.token children ≤ identifiersOf name (body ctx node style inner) := by
  have all := Nat.le_trans (Node.shownIn_le name node.token children) (holds.all ctx same)
  unfold body
  dsimp only
  split
  · rw [Element.identifiersOf_cons]
    exact Nat.le_trans all (Nat.le_add_left _ _)
  · split
    · rw [Element.identifiersOf_cons, Element.identifiersOf_cons]
      omega
    · have shows := filled_shows holds same node (labelled ctx node style (shell node style inner))
      rw [Element.identifiersOf_cons]
      unfold accented
      split
      · rw [Element.identifiers_appendChild]
        omega
      · omega

theorem content_shows (style : Style) (unboxed : (node.token == "\\hbox" && node.text.isSome) = false) :
    Node.shownIn name node.token children ≤ identifiersOf name (content ctx node style inner) := by
  have none : (if node.is "\\hbox" then node.text else none) = none := by
    unfold Node.is
    cases box : node.token == "\\hbox" with
    | false => rfl
    | true => simpa [box] using unboxed
  have shows := body_shows holds same node style
  unfold content
  rw [none]
  simp only [Element.identifiersOf_append]
  omega

theorem command_shows (style : Style) (unboxed : (node.token == "\\hbox" && node.text.isSome) = false) :
    Node.shownIn name node.token children ≤ identifiersOf name (command ctx node style inner) := by
  have inside : Node.shownIn name node.token children ≤ identifiersOf name (inScope ctx node style inner) := by
    unfold inScope
    split
    · rename_i scope _
      have inner_same : (ctx.within scope).symbols = symbols := same
      have shows := content_shows holds inner_same node style unboxed
      rw [Element.identifiersOf_cons, Element.identifiers_appendChildren]
      omega
    · exact content_shows holds same node style unboxed
  unfold command
  split
  · rw [Element.identifiersOf_cons]
    exact Nat.le_trans inside (Nat.le_add_left _ _)
  · exact inside

theorem drawing_shows (held : node.children = some children) :
    node.shown name ≤ identifiersOf name ((drawing ctx node inner).before []) := by
  have some : node.isLeaf = false := by
    rw [Node.isLeaf, held]
    rfl
  rw [Node.shown_held name held]
  split
  · exact Nat.zero_le _
  · rename_i shown
    rw [Bool.not_eq_true, Bool.or_eq_false_iff] at shown
    obtain ⟨follows, unboxed⟩ := shown
    rw [Node.hides, Bool.or_eq_false_iff] at follows
    obtain ⟨switch, font⟩ := follows
    have all (ctx : Context) (same : ctx.symbols = symbols) :=
      Nat.le_trans (Node.shownIn_le name node.token children) (holds.all ctx same)
    unfold drawing
    cases switched : Style.switches.lookup node.token with
    | some _ =>
      rw [switched] at switch
      contradiction
    | none =>
      cases Style.of? node.token with
      | some style =>
        rw [Drawing.before, List.append_nil]
        exact command_shows holds same node style unboxed
      | none =>
        simp only [some, Bool.false_eq_true, if_false, Bool.not_false, Bool.true_and]
        cases argument : Font.ofArgument.lookup node.token with
        | some font =>
          rw [Drawing.before, List.append_nil]
          exact all { ctx with font } same
        | none =>
          rw [argument, Option.isNone_none, Bool.and_true] at font
          dsimp only
          split
          · rw [Drawing.before, List.append_nil]
            exact all ctx same
          · cases rest : Font.ofRest.lookup node.token with
            | some _ =>
              rw [rest] at font
              contradiction
            | none =>
              dsimp only
              rw [Drawing.before, List.append_nil, Element.identifiersOf_cons,
                Element.identifiers_appendChildren]
              have inside := all (ctx.within (Element.shell "mrow" node.attributes)) same
              omega

end Commands

/-! ## All nodes -/

theorem leaf_shows {c : Char} (known : PlainLetter symbols c) {ctx : Context} (same : ctx.symbols = symbols)
    {node : Node} (leaf : node.children = none) (inner : Inner) :
    node.shown (String.singleton c) ≤
      identifiersOf (String.singleton c) ((drawing ctx node inner).before []) := by
  rw [Node.shown_leaf _ leaf]
  split
  · rename_i token
    have letter := known.letter
    have bare : node.isLeaf = true := by
      rw [Node.isLeaf, leaf]
      rfl
    have style : Style.of? (String.singleton c) = none := lookup_letter letter (by decide +kernel)
    unfold drawing
    rw [token, lookup_letter letter (by decide +kernel), style, bare]
    simp only [if_true, Bool.not_true, Bool.false_and, Bool.false_eq_true, if_false]
    rw [lookup_letter letter (by decide +kernel)]
    rw [Drawing.before, List.append_nil, Element.identifiersOf_cons, same]
    have shows := Glyph.draw_letter known ctx.font token
    omega
  · exact Nat.zero_le _

/- What a node is drawn as, by itself and skewed, has the leaves that it shows as identifiers. -/
def Shows (symbols : SymbolTable) (name : String) (node : Node) : Prop :=
  ∀ ctx : Context, ctx.symbols = symbols →
    node.shown name ≤ identifiersOf name ((Draw.node ctx node).before []) ∧
      ∀ space, node.shown name ≤ identifiersOf name (spacedNode ctx space node)

theorem group_shows (nodes : List Node) (each : ∀ node ∈ nodes, Shows symbols name node)
    {ctx : Context} (same : ctx.symbols = symbols) (behind : List Element) :
    Node.shownOf name (fun _ => true) nodes ≤ identifiersOf name (group ctx behind nodes) := by
  induction nodes generalizing ctx with
  | nil => exact Nat.zero_le _
  | cons first rest ih =>
    have here := (each first (List.mem_cons_self ..) ctx same).1
    have rest_shows {ctx : Context} (same : ctx.symbols = symbols) :=
      ih (fun node listed => each node (List.mem_cons_of_mem first listed)) same
    rw [Node.shownOf, if_pos rfl, group_cons]
    cases drawn : Draw.node ctx first with
    | elements list =>
      rw [drawn, Drawing.before, List.append_nil] at here
      rw [Element.identifiersOf_append]
      exact Nat.add_le_add here (rest_shows same)
    | font font =>
      rw [drawn] at here
      have none : first.shown name = 0 := Nat.le_zero.mp here
      rw [none, Nat.zero_add]
      exact @rest_shows { ctx with font } same
    | wrapper attributes =>
      rw [drawn, Drawing.before, Element.identifiersOf_cons, Element.identifiersOf_nil,
        Element.identifiers_of_tag name (show "mstyle" ≠ "mi" by decide)] at here
      have none : first.shown name = 0 := Nat.le_zero.mp here
      have further := @rest_shows (ctx.within (Element.shell "mstyle" attributes)) same
      rw [none, Nat.zero_add, Element.identifiersOf_cons, Element.identifiers_appendChildren]
      omega

theorem each_shows (nodes : List Node) (each : ∀ node ∈ nodes, Shows symbols name node)
    {ctx : Context} (same : ctx.symbols = symbols) (kept : String → Bool) :
    Node.shownOf name kept nodes ≤
      identifiersOf name (((Draw.each ctx nodes).filter fun item => kept item.1).flatMap (·.2)) := by
  induction nodes with
  | nil => exact Nat.zero_le _
  | cons first rest ih =>
    have here := (each first (List.mem_cons_self ..) ctx same).1
    have further := ih fun node listed => each node (List.mem_cons_of_mem first listed)
    rw [Node.shownOf, Draw.each, List.filter_cons]
    split
    · rw [List.flatMap_cons, Element.identifiersOf_append]
      exact Nat.add_le_add here further
    · rw [Nat.zero_add]
      exact further

theorem innerOf_holds {node : Node} {children : List Node} (held : node.children = some children)
    (each : ∀ child ∈ children, Shows symbols name child) :
    (innerOf node).Holds symbols name children := by
  unfold innerOf
  rw [held]
  constructor
  · exact fun ctx same => group_shows children each same []
  · exact fun ctx same kept _ => each_shows children each same kept
  · intro ctx same space
    cases children with
    | nil => exact Nat.zero_le _
    | cons first rest =>
      rw [Node.shownFirst]
      dsimp only
      rw [spacedHead]
      exact (each first (List.mem_cons_self ..) ctx same).2 space

theorem heldOf_holds {children : List Node} (each : ∀ child ∈ children, Shows symbols name child)
    (space : Element) : (heldOf children space).Holds symbols name children := by
  have row (ctx : Context) (same : ctx.symbols = symbols) (behind : List Element) :
      Node.shownOf name (fun _ => true) children ≤
        identifiersOf name [groupRow (group (ctx.within (groupRow [])) behind children)] := by
    have row_same : (ctx.within (groupRow [])).symbols = symbols := same
    have shows := group_shows children each row_same behind
    have inside := Element.identifiersOf_children name
      (groupRow (group (ctx.within (groupRow [])) behind children))
    rw [Element.identifiersOf_cons]
    exact Nat.le_trans shows (Nat.le_trans inside (Nat.le_add_right _ _))
  constructor
  · exact fun ctx same => row ctx same [space]
  · intro ctx same kept braces
    have all := Nat.le_trans (Node.shownOf_le name kept children) (row ctx same [space])
    unfold heldOf
    simpa [braces] using all
  · intro ctx same further
    have all := Nat.le_trans (Node.shownFirst_le name children) (row ctx same [space, further])
    have inside := Element.identifiersOf_children name
      (groupRow [groupRow (group (ctx.within (groupRow [])) [space, further] children)])
    change _ ≤ identifiersOf name [groupRow _]
    rw [Element.identifiersOf_cons _ (groupRow [_])]
    exact Nat.le_trans all (Nat.le_trans inside (Nat.le_add_right _ _))

theorem before_shows (name : String) (drawing : Drawing) (following : List Element) :
    identifiersOf name (drawing.before []) ≤ identifiersOf name (drawing.before following) := by
  cases drawing with
  | elements list =>
    rw [Drawing.before, Drawing.before, List.append_nil, Element.identifiersOf_append]
    exact Nat.le_add_right _ _
  | font font => exact Nat.zero_le _
  | wrapper attributes =>
    change identifiersOf name [(Drawing.styled attributes []).appendChildren []] ≤
      identifiersOf name [(Drawing.styled attributes []).appendChildren following]
    rw [Element.identifiersOf_cons, Element.identifiersOf_cons, Element.identifiers_appendChildren,
      Element.identifiers_appendChildren, Element.identifiersOf_nil]
    omega

theorem node_shows {c : Char} (known : PlainLetter symbols c) (node : Node) :
    Shows symbols (String.singleton c) node := by
  induction node using Node.induct with
  | step node ih =>
    intro ctx same
    rw [node_eq]
    cases held : node.children with
    | none =>
      constructor
      · exact leaf_shows known same held _
      · intro space
        have row_same : (ctx.within (groupRow [])).symbols = symbols := same
        have shows := leaf_shows known row_same held nothing
        have more := before_shows (String.singleton c) (drawing (ctx.within (groupRow [])) node nothing)
          [space]
        have inside := Element.identifiersOf_children (String.singleton c)
          (groupRow ((drawing (ctx.within (groupRow [])) node nothing).before [space]))
        rw [spacedNode_leaf ctx space held, Element.identifiersOf_cons]
        exact Nat.le_trans shows (Nat.le_trans more (Nat.le_trans inside (Nat.le_add_right _ _)))
    | some children =>
      rw [Node.childList, held] at ih
      constructor
      · exact drawing_shows (innerOf_holds held ih) same node held
      · intro space
        rw [spacedNode_children ctx space held]
        exact drawing_shows (heldOf_holds ih space) same node held

end Draw

/-! ## Trees without a loss -/

namespace Node

mutual

/-- Whether no node of a tree loses any of the leaves that it holds. -/
def whole : Node → Bool
  | ⟨_, none, _, _, _, _, _⟩ => true
  | ⟨token, some children, _, _, text, _, _⟩ =>
    !hides token && !(token == "\\hbox" && text.isSome) &&
      (token != "\\skew" || children.length ≤ 1) &&
      wholeAll (Style.tableCommands.contains token) children

/-- In the body of a table only leaves may stand outside of the cells. -/
def wholeAll (table : Bool) : List Node → Bool
  | [] => true
  | first :: rest =>
    whole first && (!table || standsInCell first.token || first.isLeaf) && wholeAll table rest

end

theorem standsInCell_letter {c : Char} (letter : c.isAlpha) : standsInCell (String.singleton c) = true := by
  have word {other : String} (marked : other.toList.head?.all (! ·.isAlpha)) :
      (String.singleton c == other) = false := beq_eq_false_iff_ne.mpr (ne_singleton_of_head letter marked).symm
  have role : Table.role (String.singleton c) = .content := by
    unfold Table.role
    rw [word (by decide), word (by decide), word (by decide), word (by decide), word (by decide),
      word (by decide), word (by decide)]
    rfl
  rw [standsInCell, role]
  rfl

/- What does not stand in a cell is a leaf here, and no letter. -/
theorem leavesOf_le {c : Char} (letter : c.isAlpha) (table : Bool) (nodes : List Node)
    (each : ∀ node ∈ nodes, node.whole → node.leaves (String.singleton c) ≤ node.shown (String.singleton c))
    (whole : wholeAll table nodes) :
    leavesOf (String.singleton c) nodes ≤
      shownOf (String.singleton c) (fun token => !table || standsInCell token) nodes := by
  induction nodes with
  | nil => exact Nat.le_refl _
  | cons first rest ih =>
    rw [wholeAll, Bool.and_eq_true, Bool.and_eq_true] at whole
    obtain ⟨⟨here, stands⟩, later⟩ := whole
    have further := ih (fun node listed => each node (List.mem_cons_of_mem first listed)) later
    rw [leavesOf, shownOf]
    apply Nat.add_le_add ?_ further
    split
    · exact each first (List.mem_cons_self ..) here
    · rename_i outside
      obtain ⟨token, children, delimiter, alignment, text, attributes, modifier⟩ := first
      cases children with
      | some children => simp_all [isLeaf]
      | none =>
        rw [leaves]
        split
        · rename_i same
          obtain rfl := same
          simp [standsInCell_letter letter] at outside
        · exact Nat.le_refl _

theorem leaves_le_shown {c : Char} (letter : c.isAlpha) (node : Node) (kept : node.whole) :
    node.leaves (String.singleton c) ≤ node.shown (String.singleton c) := by
  induction node using Node.induct with
  | step node ih =>
    obtain ⟨token, children, delimiter, alignment, text, attributes, modifier⟩ := node
    cases children with
    | none => exact Nat.le_of_eq (by rw [leaves, shown])
    | some children =>
      rw [whole, Bool.and_eq_true, Bool.and_eq_true, Bool.and_eq_true] at kept
      obtain ⟨⟨⟨drawn, unboxed⟩, alone⟩, below⟩ := kept
      have inside := leavesOf_le letter _ children (fun child listed => ih child listed) below
      rw [Bool.not_eq_true'] at drawn unboxed
      rw [leaves, shown_held _ rfl]
      dsimp only
      rw [drawn, unboxed, Bool.or_self, if_neg Bool.false_ne_true, shownIn]
      cases table : Style.tableCommands.contains token with
      | true =>
        rw [table] at inside
        exact inside
      | false =>
        rw [table] at inside
        simp only [Bool.not_false, Bool.true_or] at inside
        rw [if_neg Bool.false_ne_true]
        split
        · rename_i skew
          have few : children.length ≤ 1 := by simpa [eq_of_beq skew] using alone
          apply Nat.le_trans inside
          rcases children with _ | ⟨only, _ | ⟨second, more⟩⟩
          · exact Nat.le_refl _
          · exact Nat.le_of_eq (by rw [shownOf, shownOf, shownFirst, if_pos rfl, Nat.add_zero])
          · simp at few
        · exact inside

end Node

/-! ## Sources -/

theorem known_letter {c : Char} (letter : c.isAlpha) : PlainLetter .known c := by
  constructor
  · exact letter
  · have unlisted : SymbolTable.known.codePoint? (String.singleton c) = none :=
      lookup_letter letter (by decide +kernel)
    rw [unlisted]
    rfl

theorem Draw.source_shows {symbols : SymbolTable} {source : String} {nodes : List Node}
    (parsed : Formula.parse symbols source = .ok nodes) :
    ∃ row, Draw.source symbols source = .ok row ∧ ∀ c : Char, PlainLetter symbols c →
      Node.shownOf (String.singleton c) (fun _ => true) nodes ≤ identifiersOf (String.singleton c) row := by
  rw [Draw.source, parsed]
  constructor
  · constructor
    · rfl
    · intro c known
      exact group_shows nodes (fun node _ => node_shows known node) rfl []

namespace Converter

/-- A source is drawn wherever it is parsed, and every letter that is shown in its tree becomes an
identifier. In a tree in which no node loses anything, these are all its letters. -/
theorem toElement_shows_letters (settings : Settings) (source : String) (display : Display)
    (nodes : List Node) (parsed : Converter.parse ⟨settings, .known⟩ source = .ok nodes) :
    ∃ e, Converter.toElement ⟨settings, .known⟩ source display = .ok e ∧ ∀ c : Char, c.isAlpha →
      Node.shownOf (String.singleton c) (fun _ => true) nodes ≤ e.identifiers (String.singleton c) ∧
      (Node.wholeAll false nodes →
        Node.leavesOf (String.singleton c) nodes ≤ e.identifiers (String.singleton c)) := by
  obtain ⟨row, drawn, shows⟩ := Draw.source_shows parsed
  exists formulaElement settings.namespaceUri display.word row
  constructor
  · unfold toElement
    rw [drawn]
    rfl
  · intro c letter
    have inside : identifiersOf (String.singleton c) row ≤
        (formulaElement settings.namespaceUri display.word row).identifiers (String.singleton c) := by
      rw [formulaElement, Element.identifiers_of_tag _ (show "math" ≠ "mi" by decide),
        Element.identifiersOf_cons, Element.holding,
        Element.identifiers_of_tag _ (show "mrow" ≠ "mi" by decide)]
      exact Nat.le_add_right _ _
    have shown := Nat.le_trans (shows c (known_letter letter)) inside
    constructor
    · exact shown
    · intro whole
      have all := Node.leavesOf_le letter false nodes
        (fun node _ => Node.leaves_le_shown letter node) whole
      exact Nat.le_trans all shown

theorem toElement_shows_letters_fraction :
    ∃ nodes e, Converter.parse {} "\\frac\x7bxy\x7d\x7bx\x7d" = .ok nodes ∧
      Converter.toElement {} "\\frac\x7bxy\x7d\x7bx\x7d" .inline = .ok e ∧ 2 ≤ e.identifiers "x" := by
  have parsed : Converter.parse {} "\\frac\x7bxy\x7d\x7bx\x7d" = .ok [.withChildren "\\frac" [
      .braces [.leaf "x", .leaf "y"], .braces [.leaf "x"]]] := by
    decide +kernel
  obtain ⟨e, drawn, shows⟩ := toElement_shows_letters {} _ .inline _ parsed
  have letters := (shows 'x' rfl).2 (by decide +kernel)
  exact ⟨_, e, parsed, drawn, letters⟩

/- An environment with the name of a switch holds a letter that is not drawn. -/
theorem switch_environment_loses_letter :
    Converter.parse {} "\\begin\x7blarge\x7da\\end\x7blarge\x7d" =
        .ok [.withChildren "\\large" [.leaf "a"]] ∧
      ∃ e, Converter.toElement {} "\\begin\x7blarge\x7da\\end\x7blarge\x7d" .inline = .ok e ∧
        e.identifiers "a" = 0 ∧ Node.leavesOf "a" [.withChildren "\\large" [.leaf "a"]] = 1 := by
  constructor
  · decide +kernel
  · exists ⟨"math", [("display", "inline")], "", [⟨"mrow", [], "", [
      ⟨"mstyle", [("mathsize", "1.2em")], "", []⟩]⟩]⟩
    constructor
    · decide +kernel
    · decide

end Converter

end FormulaMarkup

import FormulaMarkup.Proofs.Parsing.Attributes
import FormulaMarkup.Proofs.Render.Traversal
import FormulaMarkup.Converter

/-!
What is drawn is tidy: the tags and the names of the attributes of a converted formula are letters
at every depth, whatever the source says. Tidy nodes are drawn as tidy elements where the formulas
in boxes are.
-/
namespace FormulaMarkup

open Element (TidyAll tidy_mk tidy_shell tidy_holding tidy_ofText tidy_ite)

/-! ## The tables of styles -/

namespace Style

theorem commands_tidy :
    ∀ entry ∈ commands, IsName entry.2.tag ∧ entry.2.attributes.Tidy := by
  decide +kernel

theorem switches_tidy : ∀ entry ∈ switches, entry.2.Tidy := by
  decide +kernel

theorem accents_tidy : ∀ entry ∈ accents, entry.2.2.Tidy := by
  decide +kernel

theorem tidy_of {command : String} {style : Style} (found : of? command = some style) :
    IsName style.tag ∧ style.attributes.Tidy :=
  commands_tidy _ (mem_of_lookup found)

end Style

/-! ## Glyphs -/

namespace Element

theorem Tidy.setFont {e : Element} (tidy : e.Tidy) (font : Font) (kind : GlyphKind) :
    (e.setFont font kind).Tidy := by
  unfold Element.setFont
  split
  · exact tidy.setAttribute (by decide) _
  · exact tidy

end Element

namespace Glyph

theorem kern_tidy (width : String) : (kern width).Tidy :=
  tidy_shell (by decide) (Attributes.tidy_of_names ["width"] rfl (by decide))

theorem letter_tidy (font : Font) (text : String) : (letter font text).Tidy :=
  (tidy_ofText (by decide) text).setFont font .identifier

theorem letterRow_tidy (font : Font) (text : String) :
    (Element.holding "mrow" [letter font text]).Tidy :=
  tidy_holding (by decide) (by simp [letter_tidy])

theorem logoEnd_tidy (font : Font) : TidyAll (logoEnd font) := by
  have raised : Element.Tidy ⟨"mpadded",
      [("height", "-0.5ex"), ("depth", "0.5ex"), ("voffset", "-0.5ex")], "",
      [Element.holding "mrow" [letter font "E"]]⟩ :=
    tidy_mk (by decide) (by decide) (by simp [letterRow_tidy])
  simp [logoEnd, letter_tidy, kern_tidy, raised]

theorem logoStart_tidy (font : Font) : TidyAll (logoStart font) := by
  have small : Element.Tidy ⟨"mstyle", [("displaystyle", "false"), ("scriptlevel", "1")], "",
      [Element.holding "mrow" [letter font "A"]]⟩ :=
    tidy_mk (by decide) (by decide) (by simp [letterRow_tidy])
  have raised : Element.Tidy ⟨"mpadded",
      [("height", "0.21ex"), ("depth", "-0.21ex"), ("voffset", "0.21ex")], "",
      [⟨"mstyle", [("displaystyle", "false"), ("scriptlevel", "1")], "",
        [Element.holding "mrow" [letter font "A"]]⟩]⟩ :=
    tidy_mk (by decide) (by decide) (by simp [small])
  simp [logoStart, letter_tidy, kern_tidy, raised]

section

variable (symbols : SymbolTable) (font : Font) {node : Node} (tidy : node.attributes.Tidy)

include tidy

theorem operator_tidy : (operator symbols font node).Tidy := by
  have base : ((Element.shell "mo" node.attributes).setText (symbols.textOf node.token)).Tidy :=
    (tidy_shell (by decide) tidy).setText _
  have marked := tidy_ite (p := node.is "\\|") (base.setAttribute (show IsName "fence" by decide) "false")
    (tidy_ite (p := node.is "\\smallint")
      (base.setAttribute (show IsName "largeop" by decide) "false") base)
  exact tidy_ite ((marked.setAttribute (by decide) _).setFont font .fence)
    (marked.setFont font .operator)

theorem draw_tidy : (draw symbols font node).Tidy := by
  have shell {tag : String} (name : IsName tag) : (Element.shell tag node.attributes).Tidy :=
    tidy_shell name tidy
  have text {tag : String} (name : IsName tag) (text : String) (kind : GlyphKind) :
      (((Element.shell tag node.attributes).setText text).setFont font kind).Tidy :=
    ((shell name).setText text).setFont font kind
  unfold draw
  dsimp only
  split
  · exact text (by decide) _ _
  split
  · exact operator_tidy symbols font tidy
  split
  · exact text (by decide) _ _
  split
  · exact text (by decide) _ _
  split
  · have bar : (Element.ofText "mtext" "\u29f8").Tidy := tidy_ofText (by decide) _
    exact tidy_mk (by decide) (by decide) (by simp [bar])
  split
  · exact (((tidy_shell (by decide) (by decide)).setAttributes tidy).setText _).setFont _ _
  split
  · apply (shell (by decide)).appendChildren
    intro e mem
    obtain ⟨part, _, rfl⟩ := List.mem_map.mp mem
    exact tidy_ofText (by decide) part
  split
  · exact (shell (by decide)).appendChildren
      (Element.tidyAll_append.mpr ⟨logoStart_tidy font, logoEnd_tidy font⟩)
  split
  · exact (shell (by decide)).appendChildren (logoEnd_tidy font)
  split
  · exact (shell (by decide)).setText _
  · exact text (by decide) _ _

end

end Glyph

/-! ## Tables -/

namespace Table

/-- All that is drawn for the items of a table body is tidy. -/
def TidyItems (items : List Item) : Prop := ∀ item ∈ items, TidyAll item.2

theorem cell_tidy (paired : Bool) (letters : List Char) (column : Nat) {items : List Item}
    (tidy : TidyItems items) : (cell paired letters column items).Tidy := by
  apply tidy_mk (by decide)
  · cases (fillAlignment? items).or (columnAlignment? letters column) with
    | none => decide
    | some word => exact Attributes.tidy_of_names ["columnalign"] rfl (by decide)
  · apply Element.tidyAll_append.mpr
    constructor
    · split
      · have empty : (Element.ofTag "mi").Tidy := tidy_mk (by decide) (by decide) (by simp)
        simp [empty]
      · simp
    · intro e mem
      obtain ⟨item, drawn, mem⟩ := List.mem_flatMap.mp mem
      exact tidy item (List.mem_filter.mp drawn).1 e mem

theorem row_tidy (paired : Bool) (letters : List Char) {cells : List (List Item)}
    (tidy : ∀ items ∈ cells, TidyItems items) : (row paired letters cells).Tidy := by
  apply tidy_holding (by decide)
  intro e mem
  obtain ⟨column, inside, rfl⟩ := List.mem_mapIdx.mp mem
  exact cell_tidy paired letters column (tidy _ (List.getElem_mem inside))

theorem rows_tidy (paired : Bool) (letters : List Char) {body : List Item} (tidy : TidyItems body) :
    TidyAll (rows paired letters body) := by
  have all : TidyAll ((rowsOf body).map (row paired letters)) := by
    intro e mem
    obtain ⟨cells, inBody, rfl⟩ := List.mem_map.mp mem
    exact row_tidy paired letters fun items inRow item inCell =>
      tidy item (mem_cells.mp ⟨cells, inBody, items, inRow, inCell⟩).1
  unfold rows
  dsimp only
  split
  · exact fun e mem => all e (List.dropLast_subset _ mem)
  · exact all

theorem fillIn_tidy (command : String) (alignment : List Char) {body : List Item} {table : Element}
    (tidy : TidyItems body) (empty : table.Tidy) : (fillIn command alignment body table).Tidy := by
  have filled := empty.appendChildren (rows_tidy (isPaired command) (lettersFor command alignment) tidy)
  have lined := tidy_ite (p := (lineKinds body).contains "solid")
    (filled.setAttribute (show IsName "rowlines" by decide) (" ".intercalate (lineKinds body))) filled
  exact tidy_ite (lined.setAttribute (by decide) _) lined

end Table

/-! ## Commands -/

/-- The formulas in the text of boxes are drawn tidily. -/
def Context.Tidy (ctx : Context) : Prop :=
  ∀ text elements, ctx.boxed text = some elements → TidyAll elements

theorem Context.Tidy.within {ctx : Context} (good : ctx.Tidy) (e : Element) : (ctx.within e).Tidy :=
  good

/-- The children are drawn tidily wherever boxes are. -/
structure Inner.Tidy (inner : Inner) : Prop where
  all : ∀ ctx : Context, ctx.Tidy → TidyAll (inner.all ctx)
  each : ∀ ctx : Context, ctx.Tidy → Table.TidyItems (inner.each ctx)
  spaced : ∀ ctx : Context, ctx.Tidy → ∀ space : Element, space.Tidy → TidyAll (inner.spaced ctx space)

/-- All elements and attributes of a drawing are tidy. -/
def Drawing.Tidy : Drawing → Prop
  | .elements list => TidyAll list
  | .font _ => True
  | .wrapper attributes => attributes.Tidy

theorem Drawing.Tidy.before {drawing : Drawing} (tidy : drawing.Tidy) {following : List Element}
    (rest : TidyAll following) : TidyAll (drawing.before following) := by
  cases drawing with
  | elements list => exact Element.tidyAll_append.mpr ⟨tidy, rest⟩
  | font _ => exact rest
  | wrapper attributes =>
    have scope : (Drawing.styled attributes following).Tidy := tidy_mk (by decide) tidy rest
    simpa [Drawing.before] using scope

namespace Draw

theorem fence_tidy (symbols : SymbolTable) (size name : Option String) :
    TidyAll (fence symbols size name) := by
  cases name with
  | none => exact Element.tidyAll_nil
  | some name =>
    refine Element.tidyAll_cons.mpr ⟨tidy_mk (by decide) ?_ Element.tidyAll_nil, Element.tidyAll_nil⟩
    cases size with
    | none => decide
    | some size => exact Attributes.tidy_of_names ["minsize", "maxsize"] rfl (by decide)

theorem scope_tidy {symbols : SymbolTable} {command : String} {scope : Element}
    (found : scope? symbols command = some scope) : scope.Tidy := by
  unfold scope? at found
  split at found
  case h_4 =>
    have brace : Element.Tidy ⟨"mo", Style.stretching ++ [("form", "prefix")],
        symbols.textOf "\\\x7b", []⟩ :=
      tidy_mk (by decide) (by decide) Element.tidyAll_nil
    cases Option.some.inj found
    exact tidy_holding (by decide) (Element.tidyAll_cons.mpr ⟨brace, Element.tidyAll_nil⟩)
  case h_14 => contradiction
  all_goals
    cases Option.some.inj found
    exact tidy_shell (by decide) (by decide)

theorem tag_name (node : Node) (held : Held) {usual : String} (name : IsName usual) :
    IsName (tag node held usual) := by
  unfold tag
  dsimp only
  split
  · decide
  split
  · decide
  split
  · decide
  split
  · decide
  · exact name

section

variable {node : Node} {style : Style} (known : IsName style.tag ∧ style.attributes.Tidy)
  (sorted : node.attributes.Tidy)

include known sorted

theorem shell_tidy (inner : Inner) : (shell node style inner).Tidy := by
  have plain := tidy_shell (tag_name node inner.toHeld known.1) known.2
  have own := tidy_ite (p := node.is "\\skew") plain (plain.setAttributes sorted)
  have limited := tidy_ite (p := Style.limitCommands.contains node.token)
    (own.setAttribute (show IsName "movablelimits" by decide) "true") own
  unfold shell
  dsimp only
  split
  · exact limited.setAttribute (by decide) _
  · exact limited

end

theorem labelled_tidy (ctx : Context) (node : Node) (style : Style) {e : Element} (tidy : e.Tidy) :
    (labelled ctx node style e).Tidy := by
  unfold labelled
  dsimp only
  split
  · exact tidy.setText _
  split
  · exact tidy.setText _
  split
  · apply tidy.appendChild
    apply tidy_mk (by decide) (by decide)
    exact Element.tidyAll_cons.mpr ⟨tidy_ofText (by decide) _, Element.tidyAll_nil⟩
  split
  · split
    · exact tidy.setText _
    split
    · exact tidy.appendChild ((tidy_ofText (by decide) _).setFont _ _)
    · exact (tidy.setText _).setFont _ _
  · split
    · exact tidy_ite tidy (tidy.setText _)
    · exact tidy

theorem accented_tidy (node : Node) {e : Element} (tidy : e.Tidy) : (accented node e).Tidy := by
  unfold accented
  split
  · rename_i glyph attributes found
    have neat : attributes.Tidy := Style.accents_tidy _ (Style.mem_of_lookup found)
    exact tidy.appendChild (tidy_mk (by decide) neat Element.tidyAll_nil)
  · exact tidy

section

variable {ctx : Context} (good : ctx.Tidy) {node : Node} (sorted : node.attributes.Tidy)
  {inner : Inner} (below : inner.Tidy)

include good

theorem boxParts_tidy (text : String) {e : Element} (tidy : e.Tidy) : TidyAll (boxParts ctx text e) := by
  intro part mem
  obtain ⟨⟨mode, text⟩, _, rfl⟩ := List.mem_map.mp mem
  dsimp only
  split
  · rename_i elements drawn
    split at drawn
    · exact tidy_holding (by decide) (good text elements drawn)
    · contradiction
  · exact (tidy.setText _).setFont _ _

include sorted below

theorem filled_tidy {e : Element} (tidy : e.Tidy) : (filled ctx node inner e).Tidy := by
  have here : (ctx.within e).Tidy := good.within e
  have all := tidy.appendChildren (below.all (ctx.within e) here)
  unfold filled
  dsimp only
  split
  · exact Table.fillIn_tidy _ _ (below.each _ here) tidy
  split
  · apply tidy.appendChildren
    intro part mem
    obtain ⟨item, inside, rfl⟩ := List.mem_map.mp mem
    exact (tidy_shell (by decide) (by decide)).appendChildren (below.each _ (here.within _) item inside)
  split
  · split
    · rename_i left right drawn
      have items := below.each (ctx.within e) here
      rw [drawn] at items
      have fill : (Drawing.styled [("scriptlevel", "0")] [Glyph.kern "-0.167em"]).Tidy :=
        tidy_mk (by decide) (by decide) (by simp [Glyph.kern_tidy])
      refine tidy.appendChildren (Element.tidyAll_append.mpr ⟨items left (by simp), ?_⟩)
      exact Element.tidyAll_cons.mpr ⟨fill, items right (by simp)⟩
    · exact all
  split
  · exact tidy.appendChildren (below.spaced _ here _ (tidy_shell (by decide) sorted))
  split
  · apply tidy.appendChildren
    intro part mem
    obtain ⟨item, inside, rfl⟩ := List.mem_map.mp mem
    have strut : (Element.shell "mspace" [("depth", "0.25em")]).Tidy :=
      tidy_shell (by decide) (by decide)
    refine Element.Tidy.appendChildren (tidy_mk (by decide) (by decide) Element.tidyAll_nil) ?_
    exact Element.tidyAll_append.mpr ⟨below.each _ (here.within _) item inside, by simp [strut]⟩
  · exact all

variable {style : Style} (known : IsName style.tag ∧ style.attributes.Tidy)

include known

theorem body_tidy : TidyAll (body ctx node style inner) := by
  have label := labelled_tidy ctx node style (shell_tidy known sorted inner)
  have all := below.all ctx good
  unfold body
  dsimp only
  split
  · exact Element.tidyAll_cons.mpr ⟨label, all⟩
  split
  · simp [label, Glyph.kern_tidy, all]
  · exact Element.tidyAll_cons.mpr
      ⟨accented_tidy node (filled_tidy good sorted below label), Element.tidyAll_nil⟩

theorem content_tidy : TidyAll (content ctx node style inner) := by
  have kern (width : Option String) :
      TidyAll (width.map fun width => Glyph.kern (Skew.opposite width)).toList := by
    cases width with
    | none => exact Element.tidyAll_nil
    | some width => exact Element.tidyAll_cons.mpr ⟨Glyph.kern_tidy _, Element.tidyAll_nil⟩
  unfold content
  split
  · exact boxParts_tidy good _ (shell_tidy known sorted inner)
  · simp only [Element.tidyAll_append]
    exact ⟨⟨⟨fence_tidy _ _ _, body_tidy good sorted below known⟩, fence_tidy _ _ _⟩, kern _⟩

theorem inScope_tidy : TidyAll (inScope ctx node style inner) := by
  unfold inScope
  split
  · rename_i scope found
    have held := content_tidy (good.within scope) sorted below known
    exact Element.tidyAll_cons.mpr ⟨(scope_tidy found).appendChildren held, Element.tidyAll_nil⟩
  · exact content_tidy good sorted below known

theorem command_tidy : TidyAll (command ctx node style inner) := by
  have drawn := inScope_tidy good sorted below known
  unfold command
  split
  · exact Element.tidyAll_cons.mpr ⟨Glyph.kern_tidy _, drawn⟩
  · exact drawn

end

/-! ## Nodes and sources -/

section

variable {ctx : Context} (good : ctx.Tidy) {node : Node} (sorted : node.attributes.Tidy)
  {inner : Inner} (below : inner.Tidy)

include good sorted below

theorem drawing_tidy : (drawing ctx node inner).Tidy := by
  unfold drawing
  split
  · rename_i attributes found
    exact Style.switches_tidy _ (Style.mem_of_lookup found)
  split
  · rename_i style found
    exact command_tidy good sorted below (Style.tidy_of found)
  split
  · exact below.all _ good
  split
  · exact below.all _ good
  split
  · trivial
  split
  · exact Element.tidyAll_cons.mpr ⟨Glyph.draw_tidy _ _ sorted, Element.tidyAll_nil⟩
  · have row := (tidy_shell (show IsName "mrow" by decide) sorted).appendChildren
      (below.all _ (good.within (Element.shell "mrow" node.attributes)))
    exact Element.tidyAll_cons.mpr ⟨row, Element.tidyAll_nil⟩

end

theorem nothing_tidy : nothing.Tidy where
  all := fun _ _ => Element.tidyAll_nil
  each := nofun
  spaced := fun _ _ _ _ => Element.tidyAll_nil

theorem group_tidy {nodes : List Node}
    (each : ∀ node ∈ nodes, ∀ ctx : Context, ctx.Tidy → (Draw.node ctx node).Tidy)
    {ctx : Context} (good : ctx.Tidy) {behind : List Element} (last : TidyAll behind) :
    TidyAll (group ctx behind nodes) := by
  induction nodes generalizing ctx with
  | nil =>
    rw [group_nil]
    exact last
  | cons first rest ih =>
    have drawn := each first List.mem_cons_self ctx good
    have later {ctx : Context} (good : ctx.Tidy) : TidyAll (group ctx behind rest) :=
      ih (fun node mem => each node (List.mem_cons_of_mem _ mem)) good
    rw [group_cons]
    cases found : Draw.node ctx first with
    | elements list =>
      rw [found] at drawn
      exact Element.tidyAll_append.mpr ⟨drawn, later good⟩
    | font font => exact later good
    | wrapper attributes =>
      rw [found] at drawn
      have scope := (tidy_shell (show IsName "mstyle" by decide) drawn).appendChildren
        (later (good.within (Element.shell "mstyle" attributes)))
      exact Element.tidyAll_cons.mpr ⟨scope, Element.tidyAll_nil⟩

theorem heldOf_tidy {children : List Node}
    (each : ∀ node ∈ children, ∀ ctx : Context, ctx.Tidy → (Draw.node ctx node).Tidy)
    {space : Element} (tidy : space.Tidy) : (heldOf children space).Tidy := by
  have held {ctx : Context} (good : ctx.Tidy) {behind : List Element} (last : TidyAll behind) :
      TidyAll [groupRow (group (ctx.within (groupRow [])) behind children)] :=
    Element.tidyAll_cons.mpr
      ⟨tidy_holding (by decide) (group_tidy each (good.within _) last), Element.tidyAll_nil⟩
  have alone : TidyAll [space] := Element.tidyAll_cons.mpr ⟨tidy, Element.tidyAll_nil⟩
  constructor
  · intro ctx good
    exact held good alone
  · intro ctx good item mem
    rw [List.mem_singleton.mp mem]
    exact held good alone
  · intro ctx good further more
    have both : TidyAll [space, further] := Element.tidyAll_cons.mpr
      ⟨tidy, Element.tidyAll_cons.mpr ⟨more, Element.tidyAll_nil⟩⟩
    exact Element.tidyAll_cons.mpr ⟨tidy_holding (by decide) (held good both), Element.tidyAll_nil⟩

theorem innerOf_tidy {node : Node}
    (each : ∀ child ∈ node.childList, ∀ ctx : Context, ctx.Tidy → (Draw.node ctx child).Tidy)
    (skewed : ∀ child ∈ node.childList, ∀ ctx : Context, ctx.Tidy → ∀ space : Element, space.Tidy →
      TidyAll (spacedNode ctx space child)) : (innerOf node).Tidy := by
  obtain ⟨token, children, delimiter, alignment, text, attributes, modifier⟩ := node
  cases children with
  | none => exact nothing_tidy
  | some children =>
    constructor
    · intro ctx good
      exact group_tidy each good Element.tidyAll_nil
    · intro ctx good item mem
      change item ∈ Draw.each ctx children at mem
      rw [each_eq_map] at mem
      obtain ⟨child, inside, rfl⟩ := List.mem_map.mp mem
      exact (each child inside ctx good).before Element.tidyAll_nil
    · intro ctx good space tidy
      cases children with
      | nil => exact Element.tidyAll_nil
      | cons first rest => exact skewed first List.mem_cons_self ctx good space tidy

/-- A node is drawn tidily, and skewed tidily as well. -/
theorem node_tidy {node : Node} (tidy : node.Tidy) :
    (∀ ctx : Context, ctx.Tidy → (Draw.node ctx node).Tidy) ∧
      ∀ ctx : Context, ctx.Tidy → ∀ space : Element, space.Tidy →
        TidyAll (spacedNode ctx space node) := by
  induction tidy with
  | @intro node sorted _ ih =>
    have each child (mem : child ∈ node.childList) := (ih child mem).1
    constructor
    · intro ctx good
      rw [node_eq]
      exact drawing_tidy good sorted.tidy (innerOf_tidy each fun child mem => (ih child mem).2)
    · intro ctx good space tidy
      have inside := good.within (groupRow [])
      cases held : node.children with
      | none =>
        have leaf := (drawing_tidy inside sorted.tidy nothing_tidy).before
          (Element.tidyAll_cons.mpr ⟨tidy, Element.tidyAll_nil⟩)
        rw [spacedNode_leaf ctx space held]
        exact Element.tidyAll_cons.mpr ⟨tidy_holding (by decide) leaf, Element.tidyAll_nil⟩
      | some children =>
        rw [Node.childList, held] at each
        rw [spacedNode_children ctx space held]
        exact (drawing_tidy good sorted.tidy (heldOf_tidy each tidy)).before Element.tidyAll_nil

/-- What is drawn for a source is tidy; the formulas in boxes are shorter sources. -/
theorem source_tidy {symbols : SymbolTable} {text : String} {elements : List Element}
    (drawn : source symbols text = .ok elements) : TidyAll elements := by
  induction size : text.length using Nat.strong_induction_on generalizing text elements with
  | _ size ih =>
    rw [source] at drawn
    split at drawn
    · contradiction
    · rename_i nodes parsed
      cases drawn
      -- The parser only makes tidy nodes, and what boxes hold is tidy by induction on the length.
      refine group_tidy (fun node mem => (node_tidy (Formula.tidy_parse parsed node mem)).1) ?_
        Element.tidyAll_nil
      intro inner elements found
      dsimp only at found
      split at found
      · rename_i shorter
        cases drawn : source symbols inner with
        | error wrong =>
          rw [drawn] at found
          contradiction
        | ok list =>
          rw [drawn] at found
          cases found
          exact ih inner.length (size ▸ shorter) drawn rfl
      · contradiction

end Draw

namespace Converter

/-- The element of a converted formula is tidy. -/
theorem toElement_tidy {converter : Converter} {source : String} {display : Display} {e : Element}
    (drawn : converter.toElement source display = .ok e) : e.Tidy := by
  unfold toElement at drawn
  cases result : Draw.source converter.symbols source with
  | error wrong =>
    rw [result] at drawn
    contradiction
  | ok row =>
    rw [result] at drawn
    cases drawn
    have held : (Element.holding "mrow" row).Tidy :=
      tidy_holding (by decide) (Draw.source_tidy result)
    refine tidy_mk (by decide) ?_ (Element.tidyAll_cons.mpr ⟨held, Element.tidyAll_nil⟩)
    cases converter.settings.namespaceUri with
    | none => exact Attributes.tidy_of_names ["display"] rfl (by decide)
    | some uri => exact Attributes.tidy_of_names ["xmlns", "display"] rfl (by decide)

end Converter

end FormulaMarkup

import FormulaMarkup.Proofs.Markup.Carried
import FormulaMarkup.Proofs.Parsing.Attributes
import FormulaMarkup.Proofs.Render.Letters

/-!
Attributes from the tree to the markup. A source gives attributes to nodes, and each of them stands
on an element of the markup, as long as its node is drawn as an element of its own. Nodes that only
say something about others are drawn as none: those that set a font, and those that part and rule
the cells of a table. The same holds for the stroke of a negation, and for a box without any text.
-/
namespace FormulaMarkup

/-- The attributes that a source gives as it likes. -/
def Attributes.given : List String := ["style", "href", "mathcolor"]

namespace Element

variable {name : String} (given : name ∈ Attributes.given)

include given

/-- An attribute that is set for the sake of the drawing is none that a source gives. -/
theorem attribute?_setAttribute_of_given (e : Element) {key : String} (value : String)
    (other : key ∉ Attributes.given) : (e.setAttribute key value).attribute? name = e.attribute? name := by
  apply attribute?_setAttribute
  rintro rfl
  exact other given

theorem attribute?_setFont (e : Element) (font : Font) (kind : GlyphKind) :
    (e.setFont font kind).attribute? name = e.attribute? name := by
  unfold setFont
  split
  · exact attribute?_setAttribute_of_given given e _ (by decide)
  · rfl

end Element

open Element (Carried carried_of_attribute not_carried_nil)

/-! ## Nodes that are drawn -/

/-- Whether some part of the text of a box is shown as text. -/
def Box.showsText (symbols : SymbolTable) (text : String) : Bool :=
  (Box.parts text).any fun part => part.1 = .text || (Formula.parse symbols part.2).toOption.isNone

namespace Node

/-- Whether a node that is no leaf draws what it holds. -/
def opens (node : Node) : Bool := !hides node.token && !(node.token == "\\hbox" && node.text.isSome)

/-- The children that a node draws: of a table those that stand in cells, of a skew the first one. -/
def drawnChildren (node : Node) : List Node :=
  if !node.opens then []
  else if Style.tableCommands.contains node.token then
    node.childList.filter fun child => standsInCell child.token
  else if node.is "\\skew" then node.childList.take 1
  else node.childList

/-- A node that is drawn with a tree: the tree itself, or one that is drawn with one of its drawn
children. -/
inductive DrawnIn (node : Node) : Node → Prop where
  | itself : DrawnIn node node
  | held {outer child : Node} (drawn : child ∈ outer.drawnChildren) (within : DrawnIn node child) :
      DrawnIn node outer

/-- Whether a node is drawn as an element of its own, which takes its attributes. A skew gives them
to the space that it puts into its target. -/
def takesAttributes (symbols : SymbolTable) (node : Node) : Bool :=
  if (Style.switches.lookup node.token).isSome then false
  else if (Style.of? node.token).isSome then
    if node.is "\\skew" then node.childList.head?.any fun target => target.isLeaf || target.opens
    else !node.is "\\hbox" || node.text.all (Box.showsText symbols)
  else if node.isLeaf then !node.is "\\not" && (Font.ofRest.lookup node.token).isNone
  else (Font.ofArgument.lookup node.token).isNone && (Font.ofRest.lookup node.token).isNone &&
    !Word.begins "\\math" node.token

end Node

/-- A context in which only right formulas in boxes are drawn as formulas. -/
def Context.Sound (symbols : SymbolTable) (ctx : Context) : Prop :=
  ∀ part, (Formula.parse symbols part).toOption.isNone → ctx.boxed part = none

section

variable {symbols : SymbolTable} {name value : String}

/-! ## Tables -/

namespace Table

variable (paired : Bool) (letters : List Char)

theorem cell_carries {items : List Item} {item : Item} (mem : item ∈ items) (drawn : item.isDrawn)
    (carried : Carried name value item.2) (column : Nat) :
    Carried name value (cell paired letters column items).children := by
  apply carried.mono
  intro e inside
  exact List.mem_append_right _ (List.mem_flatMap.mpr ⟨item, List.mem_filter.mpr ⟨mem, drawn⟩, inside⟩)

/-- A row with a cell that carries something is not dropped. -/
theorem not_trailing {cells : List (List Item)} {only : Element}
    (listed : only ∈ (row paired letters cells).children) (carried : Carried name value only.children) :
    isTrailing (row paired letters cells) = false := by
  rw [Bool.eq_false_iff]
  intro trailing
  unfold isTrailing at trailing
  split at trailing
  · rename_i alone
    rw [alone] at listed
    obtain rfl := List.mem_singleton.mp listed
    rw [Element.isEmpty, Bool.and_eq_true, List.isEmpty_iff] at trailing
    rw [trailing.2] at carried
    exact not_carried_nil carried
  · contradiction

theorem rows_carry {body : List Item} {item : Item} (mem : item ∈ body) (drawn : item.isDrawn)
    (carried : Carried name value item.2) : Carried name value (rows paired letters body) := by
  have inCell : item.role ≠ .rowEnd ∧ item.role ≠ .cellEnd := by
    constructor
    · intro ends
      simp [Item.isDrawn, ends] at drawn
    · intro ends
      simp [Item.isDrawn, ends] at drawn
  obtain ⟨cells, inBody, items, inRow, here⟩ := mem_cells.mpr ⟨mem, inCell⟩
  obtain ⟨column, inside, rfl⟩ := List.getElem_of_mem inRow
  have listed : cell paired letters column cells[column] ∈ (row paired letters cells).children :=
    List.mem_mapIdx.mpr ⟨column, inside, rfl⟩
  have shown := cell_carries paired letters here drawn carried column
  have kept := not_trailing paired letters listed shown
  have all : row paired letters cells ∈ (rowsOf body).map (row paired letters) := List.mem_map_of_mem inBody
  apply (shown.within listed).within
  unfold rows
  dsimp only
  split
  · rename_i trailing
    obtain ⟨last, found, trailing⟩ := (Option.any_eq_true _ _).mp trailing
    -- Only the last row can be dropped, and a dropped row carries nothing.
    rw [← List.dropLast_append_getLast? _ found] at all
    rcases List.mem_append.mp all with front | final
    · exact front
    · rw [← List.mem_singleton.mp final, kept] at trailing
      contradiction
  · exact all

theorem attribute?_fillIn (given : name ∈ Attributes.given) (command : String) (alignment : List Char)
    (body : List Item) (table : Element) :
    (fillIn command alignment body table).attribute? name = table.attribute? name := by
  have lines (e : Element) (kinds : List String) :
      (if kinds.contains "solid" then e.setAttribute "rowlines" (" ".intercalate kinds)
        else e).attribute? name = e.attribute? name := by
    split
    · exact Element.attribute?_setAttribute_of_given given e _ (by decide)
    · rfl
  unfold fillIn
  dsimp only
  split
  · rw [Element.attribute?_setAttribute_of_given given _ _ (by decide), lines]
    rfl
  · exact lines _ _

end Table

/-! ## Elements of nodes -/

variable {node : Node} (sorted : node.attributes.Sorted) (own : node.attribute? name = some value)

include sorted own

theorem Element.attribute?_setAttributes (e : Element) :
    (e.setAttributes node.attributes).attribute? name = some value :=
  Attributes.get?_setAll _ _ (sorted.2.imp fun less => ne_of_lt less) own

variable (given : name ∈ Attributes.given)

include given

namespace Glyph

omit sorted in
theorem attribute?_operator (symbols : SymbolTable) (font : Font) :
    (operator symbols font node).attribute? name = some value := by
  have kept := Element.attribute?_setAttribute_of_given given
  have font_kept := Element.attribute?_setFont given
  have marked (e : Element) (same : e.attributes = node.attributes) :
      (if node.is "\\|" then e.setAttribute "fence" "false"
        else if node.is "\\smallint" then e.setAttribute "largeop" "false" else e).attribute? name =
      some value := by
    have here : e.attribute? name = some value := by rw [Element.attribute?, same]; exact own
    split
    · rw [kept _ _ (by decide), here]
    · split
      · rw [kept _ _ (by decide), here]
      · exact here
  unfold operator
  dsimp only
  split
  · rw [font_kept, kept _ _ (by decide), marked _ rfl]
  · rw [font_kept, marked _ rfl]

/-- A leaf has its attributes on its element, unless it is the stroke of a negation. -/
theorem attribute?_draw (other : node.is "\\not" = false) (symbols : SymbolTable) (font : Font) :
    (draw symbols font node).attribute? name = some value := by
  have font_kept := Element.attribute?_setFont given
  have shown (tag text : String) (kind : GlyphKind) :
      (((Element.shell tag node.attributes).setText text).setFont font kind).attribute? name =
        some value :=
    (font_kept _ font kind).trans own
  have stroke : (node.token == "\\not") = false := other
  unfold draw
  dsimp only
  rw [stroke]
  split
  · exact shown _ _ _
  split
  · exact attribute?_operator own given symbols font
  split
  · exact shown _ _ _
  split
  · exact shown _ _ _
  rw [if_neg Bool.false_ne_true]
  split
  · rw [font_kept]
    exact Element.attribute?_setAttributes sorted own (Element.shell "mo" [("movablelimits", "true")])
  split
  · exact own
  split
  · exact own
  split
  · exact own
  split
  · exact own
  · exact shown _ _ _

end Glyph

namespace Draw

variable (ctx : Context) (style : Style) (inner : Inner)

theorem attribute?_shell (unskewed : node.is "\\skew" = false) :
    (shell node style inner).attribute? name = some value := by
  have kept := Element.attribute?_setAttribute_of_given given
  have here (tag : String) : ((Element.shell tag style.attributes).setAttributes
      node.attributes).attribute? name = some value :=
    Element.attribute?_setAttributes sorted own (Element.shell tag style.attributes)
  unfold shell
  dsimp only
  rw [unskewed, if_neg Bool.false_ne_true]
  split
  · rw [kept _ _ (by decide)]
    split
    · rw [kept _ _ (by decide), here]
    · exact here _
  · split
    · rw [kept _ _ (by decide), here]
    · exact here _

omit sorted own in
theorem attribute?_labelled (e : Element) :
    (labelled ctx node style e).attribute? name = e.attribute? name := by
  have font_kept := Element.attribute?_setFont given
  unfold labelled
  split
  · rfl
  split
  · rfl
  split
  · rfl
  split
  · split
    · rfl
    · split
      · rfl
      · exact font_kept _ _ _
  · split
    · split
      · rfl
      · rfl
    · rfl

omit sorted own in
theorem attribute?_filled (e : Element) : (filled ctx node inner e).attribute? name = e.attribute? name := by
  unfold filled
  dsimp only
  split
  · exact Table.attribute?_fillIn given _ _ _ _
  split
  · rfl
  split
  · split
    · rfl
    · rfl
  split
  · rfl
  split
  · rfl
  · rfl

omit sorted own given in
theorem attribute?_accented (e : Element) : (accented node e).attribute? name = e.attribute? name := by
  unfold accented
  split
  · rfl
  · rfl

theorem body_takes (unskewed : node.is "\\skew" = false) :
    Carried name value (body ctx node style inner) := by
  have labelled : (labelled ctx node style (shell node style inner)).attribute? name = some value :=
    (attribute?_labelled given ctx style _).trans (attribute?_shell sorted own given style inner unskewed)
  unfold body
  dsimp only
  split
  · exact carried_of_attribute List.mem_cons_self labelled
  · split
    · exact carried_of_attribute List.mem_cons_self labelled
    · apply carried_of_attribute (List.mem_singleton_self _)
      rw [attribute?_accented, attribute?_filled given, labelled]

/-- A part of a box that is shown as text is an element like that of the box. -/
theorem boxParts_take {ctx : Context} (sound : ctx.Sound symbols) {text : String}
    (shown : Box.showsText symbols text) (unskewed : node.is "\\skew" = false) :
    Carried name value (boxParts ctx text (shell node style inner)) := by
  obtain ⟨⟨mode, part⟩, mem, plain⟩ := List.any_eq_true.mp shown
  have asText : (if mode = .math then ctx.boxed part else none) = none := by
    split
    · rename_i math
      rw [Bool.or_eq_true, decide_eq_true_iff] at plain
      rcases plain with text | wrong
      · rw [math] at text
        contradiction
      · exact sound part wrong
    · rfl
  apply carried_of_attribute (List.mem_map_of_mem mem)
  dsimp only
  rw [asText]
  dsimp only
  rw [Element.attribute?_setFont given]
  exact attribute?_shell sorted own given style inner unskewed

end Draw

end

/-! ## What a command draws -/

/-- What the children of a node are drawn as carries a value, as far as the node draws them. -/
structure Inner.Carries (inner : Inner) (symbols : SymbolTable) (name value : String) (node : Node) :
    Prop where
  all : node.token ≠ "\\skew" → ∀ ctx : Context, ctx.Sound symbols → Carried name value (inner.all ctx)
  each : node.token ≠ "\\skew" → ∀ ctx : Context, ctx.Sound symbols → ∃ item ∈ inner.each ctx,
    (Style.tableCommands.contains node.token → item.isDrawn) ∧ Carried name value item.2
  spaced : node.token = "\\skew" → ∀ ctx : Context, ctx.Sound symbols →
    Carried name value (inner.spaced ctx (Draw.skewSpace node))

namespace Draw

variable {symbols : SymbolTable} {name value : String} {node : Node} {inner : Inner} {ctx : Context}

theorem ne_skew {command : String} (named : node.is command) (other : command ≠ "\\skew") :
    node.token ≠ "\\skew" := by
  rw [beq_iff_eq.mp named]
  exact other

/-- What the elements of some items hold carries what one of the items carries. -/
theorem wrapped_carry {items : List Table.Item} {item : Table.Item} (mem : item ∈ items)
    (carried : Carried name value item.2) (wrap : Element) (last : List Element) :
    Carried name value (items.map fun item => wrap.appendChildren (item.2 ++ last)) := by
  have first := carried.mono (List.subset_append_left item.2 last)
  have inside := first.mono (List.subset_append_right wrap.children (item.2 ++ last))
  exact Carried.within (e := wrap.appendChildren (item.2 ++ last)) inside
    (List.mem_map.mpr ⟨item, mem, rfl⟩)

theorem filled_carries (carries : inner.Carries symbols name value node) (sound : ctx.Sound symbols)
    (e : Element) : Carried name value (filled ctx node inner e).children := by
  have pushed {list : List Element} (carried : Carried name value list) :
      Carried name value (e.appendChildren list).children :=
    carried.mono (List.subset_append_right e.children list)
  have within : (ctx.within e).Sound symbols := sound
  unfold filled
  dsimp only
  split
  · rename_i table
    have other : node.token ≠ "\\skew" := by
      intro skew
      rw [skew] at table
      exact absurd table (by decide)
    obtain ⟨item, mem, drawn, carried⟩ :=
      carries.each other ((ctx.within e).within (Element.ofTag "mtd")) sound
    rw [Table.children_fillIn]
    exact (Table.rows_carry _ _ mem (drawn table) carried).mono (List.subset_append_right _ _)
  split
  · rename_i continued
    have other := ne_skew continued (by decide)
    obtain ⟨item, mem, -, carried⟩ := carries.each other
      ((ctx.within e).within (Element.shell "mstyle" [("displaystyle", "false"), ("scriptlevel", "0")]))
      sound
    have wrapped := wrapped_carry mem carried
      (Element.shell "mstyle" [("displaystyle", "false"), ("scriptlevel", "0")]) []
    simp only [List.append_nil] at wrapped
    exact pushed wrapped
  split
  · rename_i sided
    have other := ne_skew sided (by decide)
    split
    · rename_i left right drawn
      obtain ⟨item, mem, -, carried⟩ := carries.each other (ctx.within e) within
      rw [drawn] at mem
      apply pushed
      apply carried.mono
      rcases List.mem_cons.mp mem with rfl | mem
      · exact List.subset_append_left _ _
      · obtain rfl := List.mem_singleton.mp mem
        exact List.subset_append_of_subset_right _ (List.subset_cons_self _ _)
    · exact pushed (carries.all other _ within)
  split
  · rename_i skew
    exact pushed (carries.spaced (beq_iff_eq.mp skew) _ within)
  split
  · rename_i unskewed arrow
    have other : node.token ≠ "\\skew" := fun skew => unskewed (beq_iff_eq.mpr skew)
    obtain ⟨item, mem, -, carried⟩ :=
      carries.each other ((ctx.within e).within (Element.ofTag "mpadded")) sound
    exact pushed (wrapped_carry mem carried _ _)
  · rename_i unskewed _
    exact pushed (carries.all (fun skew => unskewed (beq_iff_eq.mpr skew)) _ within)

theorem accented_carries {e : Element} (carried : Carried name value e.children) :
    Carried name value [accented node e] := by
  unfold accented
  split
  · exact Carried.within (carried.mono (List.subset_append_left _ _)) (List.mem_singleton_self _)
  · exact carried.within (List.mem_singleton_self _)

theorem body_carries (carries : inner.Carries symbols name value node) (sound : ctx.Sound symbols)
    (style : Style) : Carried name value (body ctx node style inner) := by
  unfold body
  dsimp only
  split
  · rename_i left
    have other := ne_skew left (by decide)
    exact (carries.all other ctx sound).mono (List.subset_cons_self _ _)
  · split
    · rename_i modulus
      have other : node.token ≠ "\\skew" := by
        intro skew
        rw [skew] at modulus
        exact absurd modulus (by decide)
      exact (carries.all other ctx sound).mono fun e mem => List.mem_cons_of_mem _ (List.mem_cons_of_mem _ mem)
    · exact accented_carries (filled_carries carries sound _)

theorem content_carries {style : Style} (boxed : (if node.is "\\hbox" then node.text else none) = none)
    (carried : Carried name value (body ctx node style inner)) :
    Carried name value (content ctx node style inner) := by
  unfold content
  rw [boxed]
  dsimp only
  apply carried.mono
  intro e mem
  exact List.mem_append_left _ (List.mem_append_left _ (List.mem_append_right _ mem))

/-- A command carries what its content carries, whatever the scope of its content is. -/
theorem command_carries {style : Style} (sound : ctx.Sound symbols)
    (carried : ∀ ctx : Context, ctx.Sound symbols → Carried name value (content ctx node style inner)) :
    Carried name value (command ctx node style inner) := by
  have inside : Carried name value (inScope ctx node style inner) := by
    unfold inScope
    split
    · rename_i scope _
      exact (carried (ctx.within scope) sound).pushed scope
    · exact carried ctx sound
  unfold command
  split
  · exact inside.mono (List.subset_cons_self _ _)
  · exact inside

theorem ne_skew_of_unstyled (unstyled : Style.of? node.token = none) : node.token ≠ "\\skew" := by
  intro skew
  have styled : (Style.of? "\\skew").isSome := by decide +kernel
  rw [← skew, unstyled] at styled
  contradiction

/-- A node carries what its children are drawn as, if it draws them. -/
theorem drawing_carries (carries : inner.Carries symbols name value node) (sound : ctx.Sound symbols)
    (opens : node.opens) (held : node.isLeaf = false) :
    Carried name value ((drawing ctx node inner).before []) := by
  rw [Node.opens, Bool.and_eq_true, Bool.not_eq_true', Bool.not_eq_true', Node.hides,
    Bool.or_eq_false_iff] at opens
  obtain ⟨⟨switch, font⟩, unboxed⟩ := opens
  have rule := drawing_rule ctx node inner
  generalize drawing ctx node inner = drawn at rule ⊢
  cases rule with
  | switch named =>
    rw [named] at switch
    contradiction
  | @command style _ _ =>
    have boxed : (if node.is "\\hbox" then node.text else none) = none := by
      split
      · rename_i box
        rw [beq_iff_eq.mp box] at unboxed
        simpa using unboxed
      · rfl
    rw [Drawing.before, List.append_nil]
    exact command_carries sound fun ctx sound => content_carries boxed (body_carries carries sound style)
  | @fontGroup font _ unstyled _ _ =>
    rw [Drawing.before, List.append_nil]
    exact carries.all (ne_skew_of_unstyled unstyled) { ctx with font } sound
  | mathGroup _ unstyled _ _ _ =>
    rw [Drawing.before, List.append_nil]
    exact carries.all (ne_skew_of_unstyled unstyled) ctx sound
  | font _ _ noArgument named =>
    rw [named, noArgument held] at font
    contradiction
  | glyph _ _ leaf _ =>
    rw [held] at leaf
    contradiction
  | row _ unstyled _ _ _ _ =>
    have all := carries.all (ne_skew_of_unstyled unstyled)
      (ctx.within (Element.shell "mrow" node.attributes)) sound
    exact all.pushed _

/-- The content of a command carries what is given to the command. -/
theorem content_takes (sorted : node.attributes.Sorted) (own : node.attribute? name = some value)
    (given : name ∈ Attributes.given) (sound : ctx.Sound symbols) (unskewed : node.is "\\skew" = false)
    (shown : !node.is "\\hbox" || node.text.all (Box.showsText symbols)) (style : Style) (inner : Inner) :
    Carried name value (content ctx node style inner) := by
  cases box : if node.is "\\hbox" then node.text else none with
  | none => exact content_carries box (body_takes sorted own given ctx style inner unskewed)
  | some text =>
    rw [content, box]
    split at box
    · rename_i boxed
      rw [boxed, box] at shown
      exact boxParts_take sorted own given style inner sound shown unskewed
    · cases box

/-- A node that takes its attributes carries them, whatever its children are drawn as. -/
theorem drawing_takes (sorted : node.attributes.Sorted) (own : node.attribute? name = some value)
    (given : name ∈ Attributes.given) (sound : ctx.Sound symbols) (takes : node.takesAttributes symbols)
    (unskewed : node.is "\\skew" = false) (inner : Inner) :
    Carried name value ((drawing ctx node inner).before []) := by
  have rule := drawing_rule ctx node inner
  generalize drawing ctx node inner = drawn at rule ⊢
  unfold Node.takesAttributes at takes
  cases rule with
  | switch named =>
    rw [named] at takes
    contradiction
  | @command style unswitched named =>
    simp only [unswitched, named, unskewed, Option.isSome_none, Option.isSome_some, Bool.false_eq_true,
      if_false, if_true] at takes
    rw [Drawing.before, List.append_nil]
    exact command_carries sound fun ctx sound =>
      content_takes sorted own given sound unskewed takes style inner
  | fontGroup unswitched unstyled held named =>
    simp [unswitched, unstyled, held, named] at takes
  | mathGroup unswitched unstyled held _ named =>
    simp [unswitched, unstyled, held, named] at takes
  | font unswitched unstyled _ named =>
    simp [unswitched, unstyled, named] at takes
  | glyph unswitched unstyled leaf noFont =>
    have stroke : node.is "\\not" = false := by
      simpa [unswitched, unstyled, leaf, noFont] using takes
    have drawn := Glyph.attribute?_draw sorted own given stroke ctx.symbols ctx.font
    exact carried_of_attribute (List.mem_singleton_self _) drawn
  | row => exact carried_of_attribute (List.mem_singleton_self _) own

theorem before_carries {following : List Element} (carried : Carried name value following)
    (drawing : Drawing) : Carried name value (drawing.before following) := by
  cases drawing with
  | elements list => exact carried.mono (List.subset_append_right list following)
  | font font => exact carried
  | wrapper attributes => exact carried.within (List.mem_singleton_self _)

/-- A switch carries what its attributes say, whatever follows it. -/
theorem styled_carries {attributes : Attributes}
    (carried : Carried name value [Drawing.styled attributes []]) (following : List Element) :
    Carried name value [Drawing.styled attributes following] := by
  rcases Element.carried_singleton carried with own | inside
  · exact carried_of_attribute (List.mem_singleton_self _) own
  · exact absurd inside not_carried_nil

theorem before_carries_own {drawing : Drawing} (carried : Carried name value (drawing.before []))
    (following : List Element) : Carried name value (drawing.before following) := by
  cases drawing with
  | elements list =>
    rw [Drawing.before, List.append_nil] at carried
    exact carried.mono (List.subset_append_left list following)
  | font font => exact absurd carried not_carried_nil
  | wrapper attributes => exact styled_carries carried following

/-! ## All nodes -/

/-- What a node is drawn as, by itself and skewed, carries a value. -/
def Carries (symbols : SymbolTable) (name value : String) (node : Node) : Prop :=
  ∀ ctx : Context, ctx.Sound symbols → Carried name value ((Draw.node ctx node).before []) ∧
    ∀ space, Carried name value (spacedNode ctx space node)

theorem group_carries_behind {behind : List Element} (carried : Carried name value behind)
    (ctx : Context) (nodes : List Node) : Carried name value (group ctx behind nodes) := by
  induction nodes generalizing ctx with
  | nil =>
    rw [group_nil]
    exact carried
  | cons first rest ih =>
    rw [group_cons]
    cases Draw.node ctx first with
    | elements list => exact (ih ctx).mono (List.subset_append_right _ _)
    | font font => exact ih { ctx with font }
    | wrapper attributes => exact (ih _).pushed _

theorem group_carries {nodes : List Node} (mem : node ∈ nodes) (carries : Carries symbols name value node)
    (sound : ctx.Sound symbols) (behind : List Element) : Carried name value (group ctx behind nodes) := by
  induction nodes generalizing ctx with
  | nil => cases mem
  | cons first rest ih =>
    rw [group_cons]
    rcases List.mem_cons.mp mem with rfl | later
    · have here := (carries ctx sound).1
      cases drawn : Draw.node ctx node with
      | elements list =>
        rw [drawn, Drawing.before, List.append_nil] at here
        exact here.mono (List.subset_append_left _ _)
      | font font =>
        rw [drawn] at here
        exact absurd here not_carried_nil
      | wrapper attributes =>
        rw [drawn] at here
        exact styled_carries here _
    · cases Draw.node ctx first with
      | elements list => exact (ih later sound).mono (List.subset_append_right _ _)
      | font font => exact @ih { ctx with font } later sound
      | wrapper attributes =>
        exact (@ih (ctx.within (Element.shell "mstyle" attributes)) later sound).pushed _

end Draw

/-- A child that is drawn is one of the children, and is drawn where it stands. -/
theorem Node.mem_drawnChildren {node child : Node} (mem : child ∈ node.drawnChildren) :
    node.opens ∧ child ∈ node.childList ∧
      (Style.tableCommands.contains node.token → standsInCell child.token) ∧
      (node.token = "\\skew" → node.childList.head? = some child) := by
  unfold drawnChildren at mem
  split at mem
  · cases mem
  rename_i opens
  refine ⟨by simpa using opens, ?_⟩
  split at mem
  · rename_i table
    obtain ⟨listed, stands⟩ := List.mem_filter.mp mem
    refine ⟨listed, fun _ => stands, ?_⟩
    intro skew
    rw [skew] at table
    exact absurd table (by decide)
  rename_i other
  split at mem
  · cases children : node.childList with
    | nil =>
      rw [children] at mem
      cases mem
    | cons first rest =>
      rw [children] at mem
      obtain rfl := List.mem_singleton.mp mem
      exact ⟨List.mem_cons_self, fun table => absurd table other, fun _ => rfl⟩
  · rename_i unskewed
    exact ⟨mem, fun table => absurd table other, fun skew => absurd (beq_iff_eq.mpr skew) unskewed⟩

namespace Draw

variable {symbols : SymbolTable} {name value : String} {node : Node}

theorem innerOf_carries {child : Node} (drawn : child ∈ node.drawnChildren)
    (carries : Carries symbols name value child) : (innerOf node).Carries symbols name value node := by
  obtain ⟨-, mem, stands, head⟩ := Node.mem_drawnChildren drawn
  unfold innerOf
  cases held : node.children with
  | none =>
    rw [Node.childList, held] at mem
    cases mem
  | some children =>
    rw [Node.childList, held] at mem head
    constructor
    · exact fun _ ctx sound => group_carries mem carries sound []
    · intro _ ctx sound
      refine ⟨(child.token, (Draw.node ctx child).before []), ?_, stands, (carries ctx sound).1⟩
      dsimp only
      rw [each_eq_map]
      exact List.mem_map.mpr ⟨child, mem, rfl⟩
    · intro skew ctx sound
      obtain ⟨rest, rfl⟩ : ∃ rest, children = child :: rest := List.head?_eq_some_iff.mp (head skew)
      dsimp only
      rw [spacedHead]
      exact (carries ctx sound).2 _

theorem heldOf_carries {children : List Node} {space : Element}
    (carried : ∀ ctx : Context, ctx.Sound symbols → ∀ further,
      Carried name value (group ctx (space :: further) children)) (node : Node) :
    (heldOf children space).Carries symbols name value node := by
  have row {ctx : Context} (sound : ctx.Sound symbols) (further : List Element) : Carried name value
      [groupRow (group (ctx.within (groupRow [])) (space :: further) children)] :=
    Carried.within (e := groupRow _) (carried (ctx.within (groupRow [])) sound further)
      (List.mem_singleton_self _)
  constructor
  · exact fun _ ctx sound => row sound []
  · exact fun _ ctx sound => ⟨_, List.mem_singleton_self _, fun _ => rfl, row sound []⟩
  · intro _ ctx sound
    exact Carried.within (e := groupRow _) (row sound [skewSpace node]) (List.mem_singleton_self _)

/-- The space of a skew is put into its target, if the target draws what it holds. -/
theorem spacedNode_carries {space : Element} (own : space.attribute? name = some value) {target : Node}
    (shows : target.isLeaf || target.opens) {ctx : Context} (sound : ctx.Sound symbols) :
    Carried name value (spacedNode ctx space target) := by
  have behind (further : List Element) : Carried name value (space :: further) :=
    carried_of_attribute List.mem_cons_self own
  cases held : target.children with
  | none =>
    rw [spacedNode_leaf _ _ held]
    exact Carried.within (e := groupRow _) (before_carries (behind []) _) (List.mem_singleton_self _)
  | some children =>
    have inner : target.isLeaf = false := by rw [Node.isLeaf, held]; rfl
    rw [inner, Bool.false_or] at shows
    rw [spacedNode_children _ _ held]
    have carries : (heldOf children space).Carries symbols name value target :=
      heldOf_carries (fun ctx _ further => group_carries_behind (behind further) ctx children) target
    exact drawing_carries carries sound shows inner

/-- A skew has its attributes on the space in its target, so what counts is what the target shows. -/
theorem skew_carries (own : node.attribute? name = some value) (token : node.token = "\\skew")
    {target : Node} (head : node.childList.head? = some target)
    (shows : target.isLeaf || target.opens) : Carries symbols name value node := by
  intro ctx sound
  cases held : node.children with
  | none =>
    rw [Node.childList, held] at head
    cases head
  | some children =>
    rw [Node.childList, held] at head
    obtain ⟨rest, rfl⟩ : ∃ rest, children = target :: rest := List.head?_eq_some_iff.mp head
    have opens : node.opens := by
      have drawn : Node.hides "\\skew" = false := by decide +kernel
      rw [Node.opens, token, drawn]
      rfl
    have inner : node.isLeaf = false := by rw [Node.isLeaf, held]; rfl
    have space : (skewSpace node).attribute? name = some value := own
    have drawn {shown : Inner} (spaced : ∀ ctx : Context, ctx.Sound symbols →
        Carried name value (shown.spaced ctx (skewSpace node))) :
        Carried name value ((drawing ctx node shown).before []) :=
      drawing_carries ⟨fun other => absurd token other, fun other => absurd token other, fun _ => spaced⟩
        sound opens inner
    constructor
    · rw [node_eq]
      apply drawn
      intro ctx sound
      rw [innerOf, held]
      dsimp only
      rw [spacedHead]
      exact spacedNode_carries space shows sound
    · intro further
      rw [spacedNode_children _ _ held]
      apply drawn
      intro ctx sound
      have behind : Carried name value [further, skewSpace node] :=
        carried_of_attribute (List.mem_cons_of_mem _ (List.mem_singleton_self _)) space
      have row := group_carries_behind behind (ctx.within (groupRow [])) (target :: rest)
      exact Carried.within (e := groupRow [groupRow _])
        (Carried.within (e := groupRow _) row (List.mem_singleton_self _)) (List.mem_singleton_self _)

theorem takes_carries (sorted : node.attributes.Sorted) (own : node.attribute? name = some value)
    (given : name ∈ Attributes.given) (takes : node.takesAttributes symbols) :
    Carries symbols name value node := by
  cases skew : node.is "\\skew" with
  | false =>
    intro ctx sound
    have drawn {ctx : Context} (sound : ctx.Sound symbols) (inner : Inner) :=
      drawing_takes sorted own given sound takes skew inner
    constructor
    · rw [node_eq]
      exact drawn sound _
    · intro space
      cases held : node.children with
      | none =>
        have row_sound : (ctx.within (groupRow [])).Sound symbols := sound
        rw [spacedNode_leaf _ _ held]
        exact Carried.within (e := groupRow _) (before_carries_own (drawn row_sound nothing) [space])
          (List.mem_singleton_self _)
      | some children =>
        rw [spacedNode_children _ _ held]
        exact drawn sound _
  | true =>
    have token : node.token = "\\skew" := beq_iff_eq.mp skew
    have plain : (Style.switches.lookup "\\skew").isSome = false ∧ (Style.of? "\\skew").isSome = true := by
      decide +kernel
    rw [Node.takesAttributes, token, plain.1, if_neg Bool.false_ne_true, plain.2, if_pos rfl, skew,
      if_pos rfl] at takes
    obtain ⟨target, head, shows⟩ := (Option.any_eq_true _ _).mp takes
    exact skew_carries own token head shows

/-- A tree carries the attributes of all nodes that are drawn with it. -/
theorem drawnIn_carries {outer : Node} (drawn : node.DrawnIn outer) (sorted : node.attributes.Sorted)
    (own : node.attribute? name = some value) (given : name ∈ Attributes.given)
    (takes : node.takesAttributes symbols) : Carries symbols name value outer := by
  induction drawn with
  | itself => exact takes_carries sorted own given takes
  | @held outer child drawn _ ih =>
    intro ctx sound
    obtain ⟨opens, mem, -, -⟩ := Node.mem_drawnChildren drawn
    cases held : outer.children with
    | none =>
      rw [Node.childList, held] at mem
      cases mem
    | some children =>
      have inner : outer.isLeaf = false := by rw [Node.isLeaf, held]; rfl
      rw [Node.childList, held] at mem
      constructor
      · rw [node_eq]
        exact drawing_carries (innerOf_carries drawn ih) sound opens inner
      · intro space
        rw [spacedNode_children _ _ held]
        have carries : (heldOf children space).Carries symbols name value outer :=
          heldOf_carries (fun ctx sound further => group_carries mem ih sound (space :: further)) outer
        exact drawing_carries carries sound opens inner

end Draw

/-! ## Sources -/

namespace Node

/-- What is drawn with a tree is one of its nodes. -/
theorem DrawnIn.all {p : Node → Prop} {node outer : Node} (drawn : node.DrawnIn outer)
    (all : outer.All p) : p node := by
  induction drawn with
  | itself => exact (all_iff.mp all).1
  | held drawn _ ih => exact ih ((all_iff.mp all).2 _ (mem_drawnChildren drawn).2.1)

end Node

theorem Draw.source_carries {symbols : SymbolTable} {source : String} {nodes : List Node}
    (parsed : Formula.parse symbols source = .ok nodes) :
    ∃ row, Draw.source symbols source = .ok row ∧ ∀ outer ∈ nodes, ∀ node : Node, node.DrawnIn outer →
      node.takesAttributes symbols → ∀ name ∈ Attributes.given, ∀ value,
      node.attribute? name = some value → Carried name value row := by
  rw [Draw.source, parsed]
  refine ⟨_, rfl, ?_⟩
  intro outer mem node drawn takes name given value own
  have sorted := drawn.all (Formula.tidy_parse parsed outer mem)
  apply group_carries mem (drawnIn_carries drawn sorted own given takes)
  intro part wrong
  dsimp only
  split
  · cases failed : Formula.parse symbols part with
    | error e =>
      rw [Draw.source, failed]
      rfl
    | ok inner =>
      rw [failed] at wrong
      contradiction
  · rfl

namespace Converter

/-- A source is drawn wherever it is parsed, and every attribute that it gives to a node stands on an
element, if the node is drawn and takes its attributes. -/
theorem toElement_carries (converter : Converter) (source : String) (display : Display)
    (nodes : List Node) (parsed : converter.parse source = .ok nodes) :
    ∃ e, converter.toElement source display = .ok e ∧ ∀ outer ∈ nodes, ∀ node : Node,
      node.DrawnIn outer → node.takesAttributes converter.symbols → ∀ name ∈ Attributes.given,
      ∀ value, node.attribute? name = some value →
        ∃ part ∈ e.parts, part.attribute? name = some value := by
  obtain ⟨row, drawn, carries⟩ := Draw.source_carries parsed
  refine ⟨formulaElement converter.settings.namespaceUri display.word row, ?_, ?_⟩
  · unfold toElement
    rw [drawn]
    rfl
  · intro outer mem node within takes name given value own
    have inside := carries outer mem node within takes name given value own
    have whole : Carried name value [formulaElement converter.settings.namespaceUri display.word row] :=
      Carried.within (e := formulaElement _ _ _)
        (Carried.within (e := Element.holding "mrow" row) inside (List.mem_singleton_self _))
        (List.mem_singleton_self _)
    obtain ⟨part, mem, own⟩ := whole
    rw [Element.partsOf, Element.partsOf, List.append_nil] at mem
    exact ⟨part, mem, own⟩

theorem toElement_carries_style_in_fraction :
    ∃ e, Converter.toElement {} "\\frac\x7b\\style\x7bcolor:red\x7dx\x7d\x7by\x7d" .inline = .ok e ∧
      ∃ part ∈ e.parts, part.attribute? "style" = some "color:red" := by
  let styled : Node := { Node.leaf "x" with attributes := [("style", "color:red")] }
  let fraction : Node := .withChildren "\\frac" [.braces [styled], .braces [.leaf "y"]]
  have parsed : Converter.parse {} "\\frac\x7b\\style\x7bcolor:red\x7dx\x7d\x7by\x7d" = .ok [fraction] := by
    decide +kernel
  have above : Node.braces [styled] ∈ fraction.drawnChildren := by decide +kernel
  have here : styled ∈ (Node.braces [styled]).drawnChildren := by decide +kernel
  have takes : styled.takesAttributes .known := by decide +kernel
  obtain ⟨e, drawn, carries⟩ := toElement_carries {} _ .inline _ parsed
  exact ⟨e, drawn, carries fraction (List.mem_singleton_self _) styled (.held above (.held here .itself))
    takes "style" (by decide) "color:red" rfl⟩

/- A switch of the font is drawn as no element, so what is given to it stands nowhere. -/
theorem font_switch_loses_style :
    Converter.parse {} "\\style\x7bcolor:red\x7d\\bf 1" =
        .ok [{ Node.leaf "\\bf" with attributes := [("style", "color:red")] }, .leaf "1"] ∧
      ∃ e, Converter.toElement {} "\\style\x7bcolor:red\x7d\\bf 1" .inline = .ok e ∧
        ¬ ∃ part ∈ e.parts, part.attribute? "style" = some "color:red" := by
  constructor
  · decide +kernel
  · exists ⟨"math", [("display", "inline")], "", [⟨"mrow", [], "", [
      ⟨"mn", [], "1", []⟩]⟩]⟩
    constructor
    · decide +kernel
    · decide

end Converter

end FormulaMarkup

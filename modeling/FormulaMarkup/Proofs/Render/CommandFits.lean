import FormulaMarkup.Proofs.Render.Fits
import FormulaMarkup.Proofs.Render.Width

/-!
Whether what a command is drawn as fits. The element of a command has the tag of the command whatever
its arguments are drawn as, so its children are counted: they are told by how many elements the
arguments are drawn as, and by what is put before and behind them.
-/
namespace FormulaMarkup

open Element (asked? Fits FitAll fitAll_nil fitAll_cons fitAll_append fit_free fit_mk fit_shell
  fit_ofText)

/-! ## Whether what a node is drawn as fits -/

/-- What is told of the children of a node without drawing them. -/
structure Load extends Held where
  /-- How many elements they are drawn as, one behind the other. -/
  width : Nat
  /-- Whether all that they are drawn as fits. -/
  fits : Bool
  /-- Whether all that stands in the cells of a table fits. -/
  cellsFit : Bool
  /-- Whether the first one fits when it is skewed. -/
  skewedFits : Bool

namespace Draw

/-- Whether a command is an arrow with labels. -/
def isArrow (node : Node) : Bool := node.is "\\xleftarrow" || node.is "\\xrightarrow"

/-- How many children the element of a command has, if it is none that holds what it likes. -/
def childCount (node : Node) (load : Load) : Nat :=
  (if isArrow node then 1 + load.count else if node.is "\\cfrac" then load.count else load.width) +
    if (Style.accents.lookup node.token).isSome then 1 else 0

/-- Whether the element of a command has as many children as its tag asks for. -/
def ownFits (node : Node) (style : Style) (load : Load) : Bool :=
  (asked? (tag node load.toHeld style.tag)).all (childCount node load == ·)

/-- Whether what is drawn in a command fits. -/
def heldFits (node : Node) (load : Load) : Bool :=
  if Style.tableCommands.contains node.token then load.cellsFit
  else if node.is "\\skew" then load.skewedFits
  else load.fits

/-- Whether the formulas in the text of a box fit. -/
def boxFits (boxed : String → Bool) (text : String) : Bool :=
  (Box.parts text).all fun (mode, part) => mode = .text || boxed part

def commandFits (boxed : String → Bool) (node : Node) (style : Style) (load : Load) : Bool :=
  match if node.is "\\hbox" then node.text else none with
  | some text => boxFits boxed text
  | none => ownFits node style load && heldFits node load

/-- Whether what a node is drawn as fits, given its children. -/
def nodeFits (boxed : String → Bool) (node : Node) (load : Load) : Bool :=
  if (Style.switches.lookup node.token).isSome then true
  else
    match Style.of? node.token with
    | some style => commandFits boxed node style load
    | none =>
      if node.isLeaf then true
      else if (Font.ofArgument.lookup node.token).isSome || Word.begins "\\math" node.token then
        load.fits
      else if (Font.ofRest.lookup node.token).isSome then true
      else load.fits

end Draw

/-- Formulas in boxes fit where they are said to. -/
def Context.Boxes (ctx : Context) (boxed : String → Bool) : Prop :=
  ∀ text, boxed text = true ↔ ∀ elements, ctx.boxed text = some elements → FitAll elements

theorem Context.Boxes.within {ctx : Context} {boxed : String → Bool} (good : ctx.Boxes boxed)
    (e : Element) : (ctx.within e).Boxes boxed :=
  good

/-- The children are drawn as they are said to be. -/
structure Inner.Meets (inner : Inner) (boxed : String → Bool) (load : Load) : Prop where
  held : inner.toHeld = load.toHeld
  width : ∀ ctx, (inner.all ctx).length = load.width
  count : ∀ ctx, (inner.each ctx).length = load.count
  all : ∀ ctx : Context, ctx.Boxes boxed → (FitAll (inner.all ctx) ↔ load.fits = true)
  each : ∀ ctx : Context, ctx.Boxes boxed →
    ((∀ item ∈ inner.each ctx, FitAll item.2) ↔ load.fits = true)
  cells : ∀ ctx : Context, ctx.Boxes boxed →
    ((∀ item ∈ inner.each ctx, item.isDrawn = true → FitAll item.2) ↔ load.cellsFit = true)
  skewed : ∀ ctx : Context, ctx.Boxes boxed → ∀ space : Element, space.All Fits →
    (FitAll (inner.spaced ctx space) ↔ load.skewedFits = true)

namespace Draw

/-! ## Commands -/

theorem fence_fits (symbols : SymbolTable) (size name : Option String) :
    FitAll (fence symbols size name) := by
  cases name with
  | none => exact fitAll_nil
  | some name =>
    apply fitAll_cons.mpr
    constructor
    · exact (fit_mk (by decide)).mpr fitAll_nil
    · exact fitAll_nil

theorem scope_fits {symbols : SymbolTable} {command : String} {scope : Element}
    (found : scope? symbols command = some scope) (held : List Element) :
    (scope.appendChildren held).All Fits ↔ FitAll held := by
  have fits : asked? scope.tag = none ∧ FitAll scope.children := by
    unfold scope? at found
    split at found
    case h_4 =>
      cases Option.some.inj found
      refine ⟨rfl, fitAll_cons.mpr ⟨?_, fitAll_nil⟩⟩
      exact (fit_mk (by decide)).mpr fitAll_nil
    case h_14 => contradiction
    all_goals
      cases Option.some.inj found
      exact ⟨rfl, fitAll_nil⟩
  unfold Element.appendChildren
  rw [fit_mk fits.1, fitAll_append, and_iff_right fits.2]

/-- Styles that ask for children are neither tables nor boxes. -/
theorem style_asks :
    ∀ entry ∈ Style.commands, (asked? entry.2.tag).isSome = true ∨
        ["^", "_", "_^", "\\xleftarrow", "\\xrightarrow"].contains entry.1 = true →
      Style.tableCommands.contains entry.1 = false ∧
        ["\\sideset", "\\skew", "\\fbox", "\\left", "\\mod", "\\pmod", "\\hbox"].contains entry.1 = false := by
  decide +kernel

theorem tag_usual (node : Node) (held : Held) (usual : String) :
    tag node held usual = usual ∨
      ["^", "_", "_^", "\\xleftarrow", "\\xrightarrow"].contains node.token = true := by
  unfold tag
  dsimp only
  split
  · exact .inr (by simp_all [Node.is])
  split
  · exact .inr (by simp_all [Node.is])
  split
  · exact .inr (by simp_all [Node.is])
  split
  · exact .inr (by simp_all [Node.is])
  · exact .inl rfl

section

variable {node : Node} {style : Style} (known : Style.of? node.token = some style)

include known

theorem asks_plain {held : Held} {count : Nat} (asks : asked? (tag node held style.tag) = some count) :
    Style.tableCommands.contains node.token = false ∧
      ["\\sideset", "\\skew", "\\fbox", "\\left", "\\mod", "\\pmod", "\\hbox"].contains
        node.token = false := by
  apply style_asks _ (Style.mem_of_lookup known)
  rcases tag_usual node held style.tag with usual | script
  · rw [usual] at asks
    exact .inl (by rw [asks]; rfl)
  · exact .inr script

end

theorem fitAll_wrapped (wrap : Element) (free : asked? wrap.tag = none) (bare : wrap.children = [])
    {last : List Element} (fit : FitAll last) (items : List Table.Item) :
    FitAll (items.map fun item => wrap.appendChildren (item.2 ++ last)) ↔
      ∀ item ∈ items, FitAll item.2 := by
  have wrapped (held : List Element) : (wrap.appendChildren (held ++ last)).All Fits ↔ FitAll held := by
    unfold Element.appendChildren
    rw [fit_mk free, bare, List.nil_append, fitAll_append, and_iff_left fit]
  simp only [FitAll, List.forall_mem_map, wrapped]

theorem isArrow_eq_false {node : Node} {tokens : List String}
    (listed : tokens.contains node.token = true) (left : tokens.contains "\\xleftarrow" = false)
    (right : tokens.contains "\\xrightarrow" = false) : isArrow node = false := by
  rw [isArrow, is_eq_false_of_listed listed left, is_eq_false_of_listed listed right]
  rfl

/-- What stands before the children of a command fits, and only arrows have something there where the
number of children counts. -/
theorem labelled_meets (ctx : Context) (node : Node) (style : Style) (e : Element) :
    ∃ lead, (labelled ctx node style e).tag = e.tag ∧
      (labelled ctx node style e).children = e.children ++ lead ∧ FitAll lead ∧
      (node.is "\\fbox" = false → lead.length = if isArrow node then 1 else 0) := by
  unfold labelled
  dsimp only
  split
  · rename_i limit
    have other : isArrow node = false := isArrow_eq_false limit (by decide) (by decide)
    exact ⟨[], rfl, (List.append_nil _).symm, fitAll_nil, fun _ => by rw [other]; rfl⟩
  split
  · rename_i modulus
    have listed : ["\\mod", "\\pmod", "\\bmod"].contains node.token = true := by
      simpa [isModulus, Node.is, or_assoc] using modulus
    have other : isArrow node = false := isArrow_eq_false listed (by decide) (by decide)
    exact ⟨[], rfl, (List.append_nil _).symm, fitAll_nil, fun _ => by rw [other]; rfl⟩
  split
  · rename_i arrow
    have sign (text : String) : (Element.ofText "mo" text).All Fits := fit_ofText (by decide) text
    have label (text : String) :
        (Drawing.styled [("scriptlevel", "0")] [Element.ofText "mo" text]).All Fits :=
      (fit_mk (show asked? "mstyle" = none by decide)).mpr (by simp [sign])
    refine ⟨_, rfl, rfl, fitAll_cons.mpr ⟨label _, fitAll_nil⟩, fun _ => ?_⟩
    rw [isArrow, arrow]
    rfl
  · rename_i other
    have other : isArrow node = false := by simpa [isArrow] using other
    have none_before : FitAll [] ∧ (node.is "\\fbox" = false →
        ([] : List Element).length = if isArrow node then 1 else 0) :=
      ⟨fitAll_nil, fun _ => by rw [other]; rfl⟩
    split
    · split
      · exact ⟨[], rfl, (List.append_nil _).symm, none_before⟩
      split
      · rename_i box
        refine ⟨_, rfl, rfl, fitAll_cons.mpr ⟨?_, fitAll_nil⟩, fun plain => ?_⟩
        · rw [fit_free (by simp [Element.ofText, asked?])]
          simp [Element.ofText]
        · rw [box] at plain
          contradiction
      · exact ⟨[], by simp [Element.setText], by simp [Element.setText], none_before⟩
    · split
      · split
        · exact ⟨[], rfl, (List.append_nil _).symm, none_before⟩
        · exact ⟨[], rfl, (List.append_nil _).symm, none_before⟩
      · exact ⟨[], rfl, (List.append_nil _).symm, none_before⟩

section

variable {boxed : String → Bool} {ctx : Context} (good : ctx.Boxes boxed) {node : Node}
  {inner : Inner} {load : Load} (meets : inner.Meets boxed load)

include good meets

/-- What a command holds fits where its children do. -/
theorem filled_meets (e : Element) :
    ∃ held, (filled ctx node inner e).tag = e.tag ∧
      (filled ctx node inner e).children = e.children ++ held ∧
      (FitAll held ↔ heldFits node load = true) ∧
      (Style.tableCommands.contains node.token = false →
        node.is "\\sideset" = false → node.is "\\skew" = false →
        held.length = if isArrow node then load.count else if node.is "\\cfrac" then load.count
          else load.width) := by
  have here : (ctx.within e).Boxes boxed := good.within e
  -- The count is only asked for where the tag asks for one, which is so for no table, no `\sideset`
  -- and no `\skew`; what fits is told for all of them.
  unfold filled heldFits
  dsimp only
  split
  · rename_i table
    refine ⟨_, Table.tag_fillIn _ _ _ _, Table.children_fillIn _ _ _ _, ?_, fun free => ?_⟩
    · exact (Table.rows_fit _ _ _).trans (meets.cells _ here)
    · rw [table] at free
      contradiction
  split
  · rename_i continued
    have token : node.token = "\\cfrac" := eq_of_beq continued
    refine ⟨_, rfl, rfl, ?_, fun _ _ _ => ?_⟩
    · have wrapped := fitAll_wrapped (Element.shell "mstyle"
        [("displaystyle", "false"), ("scriptlevel", "0")]) rfl rfl fitAll_nil
      simp only [List.append_nil] at wrapped
      rw [wrapped, meets.each _ (here.within _)]
      simp [Node.is, token]
    · simp [isArrow, Node.is, token, meets.count]
  split
  · rename_i sides
    have token : node.token = "\\sideset" := eq_of_beq sides
    have counted : node.is "\\sideset" = false → False := by simp [Node.is, token]
    split
    · rename_i left right drawn
      have each := meets.each _ here
      have kern : (Glyph.kern "-0.167em").All Fits := Glyph.kern_fits _
      have fill : (Drawing.styled [("scriptlevel", "0")] [Glyph.kern "-0.167em"]).All Fits :=
        (fit_mk (show asked? "mstyle" = none by decide)).mpr (by simp [kern])
      rw [drawn] at each
      refine ⟨_, rfl, rfl, ?_, fun _ free _ => (counted free).elim⟩
      simpa [Node.is, token, fill] using each
    · refine ⟨_, rfl, rfl, ?_, fun _ free _ => (counted free).elim⟩
      simpa [Node.is, token] using meets.all _ here
  split
  · rename_i skewed
    have token : node.token = "\\skew" := eq_of_beq skewed
    refine ⟨_, rfl, rfl, ?_, fun _ _ free => ?_⟩
    · rw [show node.is "\\skew" = true from skewed]
      exact meets.skewed _ here _ (fit_shell (by decide) _)
    · simp [Node.is, token] at free
  rename_i plain
  split
  · rename_i arrow
    have strut : (Element.shell "mspace" [("depth", "0.25em")]).All Fits := fit_shell (by decide) _
    refine ⟨_, rfl, rfl, ?_, fun _ _ _ => ?_⟩
    · rw [fitAll_wrapped _ rfl rfl (by simp [strut]), meets.each _ (here.within _)]
      simp [Node.is, plain]
    · rw [List.length_map, meets.count, isArrow, Node.is, Node.is, arrow]
      rfl
  · rename_i continued _ other
    refine ⟨_, rfl, rfl, ?_, fun _ _ _ => ?_⟩
    · simpa [Node.is, plain] using meets.all _ here
    · simp only [isArrow, Node.is, other, continued, meets.width, if_false, Bool.false_eq_true]

end

theorem accented_meets (node : Node) (e : Element) :
    ∃ accent, (accented node e).tag = e.tag ∧ (accented node e).children = e.children ++ accent ∧
      FitAll accent ∧ accent.length = if (Style.accents.lookup node.token).isSome then 1 else 0 := by
  unfold accented
  split
  · rename_i glyph attributes found
    refine ⟨_, rfl, rfl, fitAll_cons.mpr ⟨?_, fitAll_nil⟩, by rw [found]; rfl⟩
    exact (fit_mk (by decide)).mpr fitAll_nil
  · rename_i none
    exact ⟨[], rfl, (List.append_nil _).symm, fitAll_nil, by rw [none]; rfl⟩

theorem tag_shell (node : Node) (style : Style) (inner : Inner) :
    (shell node style inner).tag = tag node inner.toHeld style.tag := by
  unfold shell
  dsimp only
  repeat' split
  all_goals rfl

theorem children_shell (node : Node) (style : Style) (inner : Inner) :
    (shell node style inner).children = [] := by
  unfold shell
  dsimp only
  repeat' split
  all_goals rfl

/-- The commands whose element stands apart from what they hold. -/
def heldApart : List String := ["\\left", "\\mod", "\\pmod", "\\hbox"]

theorem apart_free {node : Node} {style : Style} (known : Style.of? node.token = some style)
    (apart : heldApart.contains node.token = true) (held : Held) :
    asked? (tag node held style.tag) = none := by
  cases asks : asked? (tag node held style.tag) with
  | none => rfl
  | some count =>
    have plain := (asks_plain known asks).2
    simp_all [heldApart]

theorem apart_fits {node : Node} {style : Style} (known : Style.of? node.token = some style)
    (apart : heldApart.contains node.token = true) (load : Load) :
    (ownFits node style load && heldFits node load) = load.fits := by
  have notTable : Style.tableCommands.contains node.token = false :=
    (show ∀ token ∈ heldApart, Style.tableCommands.contains token = false by decide) _
      (List.contains_iff_mem.mp apart)
  have notSkew : node.is "\\skew" = false := is_eq_false_of_listed apart (by decide)
  rw [ownFits, apart_free known apart, heldFits, notTable, notSkew]
  rfl

section

variable {boxed : String → Bool} {ctx : Context} (good : ctx.Boxes boxed) {node : Node}
  {inner : Inner} {load : Load} (meets : inner.Meets boxed load) {style : Style}
  (known : Style.of? node.token = some style)

include known in
theorem label_fits (ctx : Context) (apart : heldApart.contains node.token = true) :
    (labelled ctx node style (shell node style inner)).All Fits := by
  obtain ⟨lead, tagLead, childrenLead, fitLead, _⟩ :=
    labelled_meets ctx node style (shell node style inner)
  rw [children_shell, List.nil_append] at childrenLead
  rw [tag_shell] at tagLead
  rw [fit_free (tagLead ▸ apart_free known apart inner.toHeld), childrenLead]
  exact fitLead

include good meets known

theorem element_fits :
    (accented node (filled ctx node inner (labelled ctx node style (shell node style inner)))).All Fits ↔
      (ownFits node style load && heldFits node load) = true := by
  obtain ⟨lead, tagLead, childrenLead, fitLead, countLead⟩ :=
    labelled_meets ctx node style (shell node style inner)
  obtain ⟨held, tagHeld, childrenHeld, fitHeld, countHeld⟩ :=
    filled_meets good meets (labelled ctx node style (shell node style inner))
  obtain ⟨accent, tagAccent, childrenAccent, fitAccent, countAccent⟩ :=
    accented_meets node (filled ctx node inner (labelled ctx node style (shell node style inner)))
  have tagged := tagAccent.trans (tagHeld.trans (tagLead.trans (tag_shell node style inner)))
  have inside := childrenAccent
  rw [childrenHeld, childrenLead, children_shell, List.nil_append] at inside
  have below : FitAll (lead ++ held ++ accent) ↔ heldFits node load = true := by
    rw [fitAll_append, fitAll_append, and_iff_right fitLead, and_iff_left fitAccent, fitHeld]
  -- The tag was chosen before the children were drawn, so the two halves are independent.
  rw [Element.all_iff, Fits, tagged, inside, meets.held, ownFits, Bool.and_eq_true]
  apply and_congr ?_ below
  cases asks : asked? (tag node load.toHeld style.tag) with
  | none => rfl
  | some count =>
    obtain ⟨notTable, notSpecial⟩ := asks_plain known asks
    have length : (lead ++ held ++ accent).length = childCount node load := by
      rw [List.length_append, List.length_append, countLead (is_eq_false notSpecial (by decide)),
        countHeld notTable (is_eq_false notSpecial (by decide)) (is_eq_false notSpecial (by decide)),
        countAccent, childCount]
      cases isArrow node
      · simp
      · simp
    rw [length]

theorem body_fits :
    FitAll (body ctx node style inner) ↔ (ownFits node style load && heldFits node load) = true := by
  unfold body
  dsimp only
  split
  · rename_i left
    have apart : heldApart.contains node.token = true := by rw [eq_of_beq left]; rfl
    rw [fitAll_cons, and_iff_right (label_fits known ctx apart), apart_fits known apart]
    exact meets.all _ good
  split
  · rename_i modulus
    have apart : heldApart.contains node.token = true := by
      rcases Bool.or_eq_true_iff.mp modulus with token | token
      · rw [eq_of_beq token]; rfl
      · rw [eq_of_beq token]; rfl
    rw [fitAll_cons, fitAll_cons, and_iff_right (label_fits known ctx apart),
      and_iff_right (Glyph.kern_fits _), apart_fits known apart]
    exact meets.all _ good
  · rw [fitAll_cons, and_iff_left fitAll_nil]
    exact element_fits good meets known

theorem boxParts_fits (box : node.is "\\hbox" = true) (text : String) :
    FitAll (boxParts ctx text (shell node style inner)) ↔ boxFits boxed text = true := by
  have free : asked? (shell node style inner).tag = none := by
    rw [tag_shell, meets.held]
    exact apart_free known (by rw [eq_of_beq box]; rfl) _
  unfold boxParts boxFits
  simp only [FitAll, List.forall_mem_map, List.all_eq_true]
  have shown (part : String) :
      (((shell node style inner).setText (Glyph.unbroken part)).setFont ctx.font .text).All Fits := by
    rw [fit_free (by simpa [Element.setText] using free)]
    simp [Element.setText, children_shell]
  apply forall₂_congr
  rintro ⟨mode, part⟩ _
  cases mode with
  | text => simpa using shown part
  | math =>
    have drawn := good part
    cases found : ctx.boxed part with
    | none =>
      rw [found] at drawn
      simpa [found, drawn] using shown part
    | some elements =>
      rw [found] at drawn
      simpa [found, drawn, Element.holding] using fit_mk (show asked? "mrow" = none by decide)

theorem content_fits :
    FitAll (content ctx node style inner) ↔ commandFits boxed node style load = true := by
  have body := body_fits good meets known
  have kern (width : Option String) :
      FitAll (width.map fun width => Glyph.kern (Skew.opposite width)).toList := by
    cases width with
    | none => exact fitAll_nil
    | some width => exact fitAll_cons.mpr ⟨Glyph.kern_fits _, fitAll_nil⟩
  unfold content commandFits
  cases box : if node.is "\\hbox" then node.text else none with
  | some text =>
    split at box
    · rename_i named
      exact boxParts_fits good meets known named text
    · contradiction
  | none => simpa [fence_fits, kern] using body

theorem inScope_fits :
    FitAll (inScope ctx node style inner) ↔ commandFits boxed node style load = true := by
  unfold inScope
  split
  · rename_i scope found
    rw [fitAll_cons, scope_fits found, and_iff_left fitAll_nil]
    exact content_fits (good.within scope) meets known
  · exact content_fits good meets known

theorem command_fits :
    FitAll (command ctx node style inner) ↔ commandFits boxed node style load = true := by
  have drawn := inScope_fits good meets known
  unfold command
  split
  · rw [fitAll_cons, and_iff_right (Glyph.kern_fits _)]
    exact drawn
  · exact drawn

end

theorem drawing_fits {boxed : String → Bool} {ctx : Context} (good : ctx.Boxes boxed) (node : Node)
    {inner : Inner} {load : Load} (meets : inner.Meets boxed load) :
    FitAll ((drawing ctx node inner).before []) ↔ nodeFits boxed node load = true := by
  unfold drawing nodeFits
  cases switch : Style.switches.lookup node.token with
  | some attributes =>
    simp [Drawing.before, Drawing.styled, fit_mk (show asked? "mstyle" = none by decide)]
  | none =>
    simp only [Option.isSome_none, Bool.false_eq_true, if_false]
    cases styled : Style.of? node.token with
    | some style =>
      simp only [Drawing.before, List.append_nil]
      exact command_fits good meets styled
    | none =>
      cases leaf : node.isLeaf with
      | true =>
        cases Font.ofRest.lookup node.token with
        | some font => simp [Drawing.before]
        | none => simp [Drawing.before, Glyph.draw_fits]
      | false =>
        have row : FitAll [(Element.shell "mrow" node.attributes).appendChildren
            (inner.all (ctx.within (Element.shell "mrow" node.attributes)))] ↔ load.fits = true := by
          rw [fitAll_cons, and_iff_left fitAll_nil,
            fit_free (show asked? "mrow" = none by decide)]
          exact meets.all _ (good.within _)
        cases found : Font.ofArgument.lookup node.token with
        | some font => simpa [Drawing.before] using meets.all { ctx with font } good
        | none =>
          cases math : Word.begins "\\math" node.token with
          | true => simpa [Drawing.before] using meets.all ctx good
          | false =>
            cases Font.ofRest.lookup node.token with
            | some font => simp [Drawing.before]
            | none => simpa [Drawing.before] using row

end Draw

end FormulaMarkup

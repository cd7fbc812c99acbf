import FormulaMarkup.Proofs.Markup.RoundTrip
import FormulaMarkup.Proofs.Render.AttributeSets

/-!
Histories of attributes, from end to end. Every element that is drawn for a source has what is left of
what is set on it, at any depth and in the formulas of boxes. Main statement: attribute lists are maps
in the order of their first entries, both on elements that are built step by step and on those of
converted formulas.
-/
namespace FormulaMarkup

/-- What holds of an element at every depth holds of all its parts. -/
theorem Element.All.part {p : Element → Prop} {e part : Element} (all : e.All p)
    (mem : part ∈ e.parts) : p part := by
  induction all with
  | intro here _ ih =>
    rw [parts_eq] at mem
    rcases List.mem_cons.mp mem with rfl | below
    · exact here
    · obtain ⟨child, held, inside⟩ := mem_partsOf.mp below
      exact ih child held inside

namespace Draw

section

variable {symbols : SymbolTable} {source : String}

/-! ## Nodes and sources -/

/-- All elements of a drawing are accounted for, and so is what it wraps around others. -/
def AccountedDrawing (symbols : SymbolTable) (source : String) : Drawing → Prop
  | .elements list => AccountedAll symbols source list
  | .font _ => True
  | .wrapper attributes => Accounted symbols source attributes

theorem AccountedDrawing.before {drawing : Drawing} (known : AccountedDrawing symbols source drawing)
    {following : List Element} (rest : AccountedAll symbols source following) :
    AccountedAll symbols source (drawing.before following) := by
  cases drawing with
  | elements list => exact accountedAll_append.mpr ⟨known, rest⟩
  | font _ => exact rest
  | wrapper attributes => exact accountedAll_cons.mpr ⟨.intro known rest, accountedAll_nil⟩

theorem accounted_drawing {ctx : Context} (good : AccountedContext symbols source ctx) {node : Node}
    (occurs : Occurs symbols source node) {inner : Inner} (held : AccountedInner symbols source inner) :
    AccountedDrawing symbols source (drawing ctx node inner) := by
  have rule := drawing_rule ctx node inner
  generalize drawing ctx node inner = drawn at rule ⊢
  cases rule with
  | switch named =>
    have neat := Style.switches_tidy _ (Style.mem_of_lookup named)
    exact ⟨_, .switch occurs named, (setAll_tidy neat).symm⟩
  | command _ named => exact accounted_command occurs good held named
  | fontGroup => exact held.all _ good
  | mathGroup => exact held.all _ good
  | font => trivial
  | glyph =>
    rw [good.1]
    exact accountedAll_cons.mpr ⟨accounted_draw occurs _, accountedAll_nil⟩
  | row =>
    exact accountedAll_cons.mpr
      ⟨accounted_own occurs "mrow" "" (held.all _ (good.within _)), accountedAll_nil⟩

theorem accounted_nothing : AccountedInner symbols source nothing where
  all := fun _ _ => accountedAll_nil
  each := nofun
  spaced := fun _ _ _ _ => accountedAll_nil

theorem accounted_group {nodes : List Node}
    (each : ∀ node ∈ nodes, ∀ ctx, AccountedContext symbols source ctx →
      AccountedDrawing symbols source (Draw.node ctx node))
    {ctx : Context} (good : AccountedContext symbols source ctx) {behind : List Element}
    (last : AccountedAll symbols source behind) :
    AccountedAll symbols source (group ctx behind nodes) := by
  induction nodes generalizing ctx with
  | nil =>
    rw [group_nil]
    exact last
  | cons first rest ih =>
    have drawn := each first List.mem_cons_self ctx good
    have later {ctx : Context} (good : AccountedContext symbols source ctx) :
        AccountedAll symbols source (group ctx behind rest) :=
      ih (fun node mem => each node (List.mem_cons_of_mem _ mem)) good
    rw [group_cons]
    cases found : Draw.node ctx first with
    | elements list =>
      rw [found] at drawn
      exact accountedAll_append.mpr ⟨drawn, later good⟩
    | font font => exact later good
    | wrapper attributes =>
      rw [found] at drawn
      exact accountedAll_cons.mpr
        ⟨.intro drawn (later (good.within (Element.shell "mstyle" attributes))), accountedAll_nil⟩

theorem accounted_heldOf {children : List Node}
    (each : ∀ node ∈ children, ∀ ctx, AccountedContext symbols source ctx →
      AccountedDrawing symbols source (Draw.node ctx node))
    {space : Element} (known : AccountedTree symbols source space) :
    AccountedInner symbols source (heldOf children space) := by
  have held {ctx : Context} (good : AccountedContext symbols source ctx) {behind : List Element}
      (last : AccountedAll symbols source behind) : AccountedAll symbols source
        [groupRow (group (ctx.within (groupRow [])) behind children)] :=
    accountedAll_cons.mpr
      ⟨accounted_bare "mrow" "" (accounted_group each (good.within _) last), accountedAll_nil⟩
  have alone : AccountedAll symbols source [space] := accountedAll_cons.mpr ⟨known, accountedAll_nil⟩
  constructor
  · intro ctx good
    exact held good alone
  · intro ctx good item mem
    rw [List.mem_singleton.mp mem]
    exact held good alone
  · intro ctx good further more
    have both : AccountedAll symbols source [space, further] :=
      accountedAll_cons.mpr ⟨known, accountedAll_cons.mpr ⟨more, accountedAll_nil⟩⟩
    exact accountedAll_cons.mpr ⟨accounted_bare "mrow" "" (held good both), accountedAll_nil⟩

theorem accounted_innerOf {node : Node}
    (each : ∀ child ∈ node.childList, ∀ ctx, AccountedContext symbols source ctx →
      AccountedDrawing symbols source (Draw.node ctx child))
    (skewed : ∀ child ∈ node.childList, ∀ ctx, AccountedContext symbols source ctx →
      ∀ space, AccountedTree symbols source space →
        AccountedAll symbols source (spacedNode ctx space child)) :
    AccountedInner symbols source (innerOf node) := by
  obtain ⟨token, children, delimiter, alignment, text, attributes, modifier⟩ := node
  cases children with
  | none => exact accounted_nothing
  | some children =>
    constructor
    · intro ctx good
      exact accounted_group each good accountedAll_nil
    · intro ctx good item mem
      change item ∈ Draw.each ctx children at mem
      rw [each_eq_map] at mem
      obtain ⟨child, inside, rfl⟩ := List.mem_map.mp mem
      exact (each child inside ctx good).before accountedAll_nil
    · intro ctx good space known
      cases children with
      | nil => exact accountedAll_nil
      | cons first rest => exact skewed first List.mem_cons_self ctx good space known

/-- All that a node is drawn as is accounted for, and so it is when the node is skewed. -/
theorem accounted_node (node : Node) (occurs : Occurs symbols source node) :
    (∀ ctx, AccountedContext symbols source ctx →
      AccountedDrawing symbols source (Draw.node ctx node)) ∧
    ∀ ctx, AccountedContext symbols source ctx → ∀ space, AccountedTree symbols source space →
      AccountedAll symbols source (spacedNode ctx space node) := by
  induction node using Node.induct with
  | step node ih =>
    have each child (mem : child ∈ node.childList) := (ih child mem (occurs.child mem)).1
    constructor
    · intro ctx good
      rw [node_eq]
      exact accounted_drawing good occurs
        (accounted_innerOf each fun child mem => (ih child mem (occurs.child mem)).2)
    · intro ctx good space known
      have inside := good.within (groupRow [])
      cases held : node.children with
      | none =>
        have leaf := (accounted_drawing inside occurs accounted_nothing).before
          (accountedAll_cons.mpr ⟨known, accountedAll_nil⟩)
        rw [spacedNode_leaf ctx space held]
        exact accountedAll_cons.mpr ⟨accounted_bare "mrow" "" leaf, accountedAll_nil⟩
      | some children =>
        rw [Node.childList, held] at each
        rw [spacedNode_children ctx space held]
        exact (accounted_drawing good occurs (accounted_heldOf each known)).before accountedAll_nil

end

/-- All that is drawn for a source is accounted for; the formulas in boxes are shorter sources. -/
theorem accounted_source {symbols : SymbolTable} {text : String} {elements : List Element}
    (drawn : source symbols text = .ok elements) : AccountedAll symbols text elements := by
  induction size : text.length using Nat.strong_induction_on generalizing text elements with
  | _ size ih =>
    rw [source] at drawn
    split at drawn
    · contradiction
    · rename_i nodes parsed
      cases drawn
      refine accounted_group (fun node mem => (accounted_node node (.parsed parsed mem)).1) ⟨rfl, ?_⟩
        accountedAll_nil
      intro outer occurs told given formula part elements found
      dsimp only at found
      split at found
      · rename_i shorter
        cases drawn : source symbols formula with
        | error wrong =>
          rw [drawn] at found
          contradiction
        | ok list =>
          rw [drawn] at found
          cases found
          -- What is drawn for the formula in the box is drawn from nodes of the whole source.
          intro e mem
          refine (ih formula.length (size ▸ shorter) drawn rfl e mem).mono ?_
          rintro e ⟨history, sets, left⟩
          exact ⟨history, sets.mono fun node inside => .boxed occurs given part inside, left⟩
      · contradiction

/-- The same for the element of a formula, of whatever namespace and display. -/
theorem accounted_formula {symbols : SymbolTable} {text : String} {row : List Element}
    (drawn : source symbols text = .ok row) (uri : Option String) (display : String) :
    AccountedTree symbols text (formulaElement uri display row) := by
  refine accounted (.formula uri display) ?_ (accountedAll_cons.mpr
    ⟨accounted_bare "mrow" "" (accounted_source drawn), accountedAll_nil⟩)
  cases uri with
  | none => rfl
  | some uri => rfl

theorem formula_tidy {symbols : SymbolTable} {text : String} {row : List Element}
    (drawn : source symbols text = .ok row) (uri : Option String) (display : String) :
    (formulaElement uri display row).Tidy := by
  have held : (Element.holding "mrow" row).Tidy :=
    Element.tidy_holding (by decide) (source_tidy drawn)
  refine Element.tidy_mk (by decide) ?_ (Element.tidyAll_cons.mpr ⟨held, Element.tidyAll_nil⟩)
  cases uri with
  | none => exact Attributes.tidy_of_names ["display"] rfl (by decide)
  | some uri => exact Attributes.tidy_of_names ["xmlns", "display"] rfl (by decide)

/-- Every element of a formula keeps what is set on it for the source. -/
theorem formula_keeps {symbols : SymbolTable} {text : String} {row : List Element}
    (drawn : source symbols text = .ok row) (uri : Option String) (display : String) :
    ∀ part ∈ (formulaElement uri display row).parts,
      ∃ history, Sets symbols text history ∧ part.attributes.Keeps history := by
  intro part mem
  obtain ⟨history, sets, left⟩ := (accounted_formula drawn uri display).part mem
  exact ⟨history, sets, left ▸ Attributes.keeps_setAll history⟩

/-- So do those that are read back from the text of a formula. -/
theorem written_keeps {symbols : SymbolTable} {text : String} {row : List Element}
    (drawn : source symbols text = .ok row) (uri : Option String) (display : String) (width : Nat) :
    ∃ e, Element.read ((formulaElement uri display row).written width) = some e ∧
      ∀ part ∈ e.parts, ∃ history, Sets symbols text history ∧ part.attributes.Keeps history :=
  ⟨_, Element.read_written (formula_tidy drawn uri display).named width,
    formula_keeps drawn uri display⟩

end Draw

theorem ok_of_map {ε α β : Type} {f : α → β} {made : Except ε α} {result : β}
    (mapped : made.map f = .ok result) : ∃ value, made = .ok value ∧ f value = result := by
  cases made with
  | error wrong => cases mapped
  | ok value => exact ⟨value, rfl, Except.ok.inj mapped⟩

namespace Attributes

/-- Attribute lists are maps in the order of their first entries. However elements are built, each one
has every name once, where it was set on it first and with the value that was set last, and a step
changes no attributes but by what it sets on its target. Every element of a converted formula keeps
what the drawing sets on it in the same way, and it stands like that in the text of the formula. -/
theorem keep_history :
    (∀ (steps : List Building.Step) (place : Building.Place) (e : Element),
      Building.at? (Building.built Element.setAttribute steps) place = some e →
        ∃ noted, Building.at? (Building.built Element.note steps) place = some noted ∧
          e.attributes.Keeps noted.attributes) ∧
    (∀ (step : Building.Step) (trees : List Element) (place : Building.Place) (e : Element),
      Building.at? trees place = some e →
        ∃ after, Building.at? (step.apply Element.setAttribute trees) place = some after ∧
          after.attributes = step.onAttributes place e.attributes) ∧
    (∀ (converter : Converter) (source : String) (display : Display) (e : Element),
      converter.toElement source display = .ok e → ∀ part ∈ e.parts,
        ∃ history, Draw.Sets converter.symbols source history ∧ part.attributes.Keeps history) ∧
    (∀ (converter : Converter) (source : String) (display : Display) (text : String),
      converter.convert source display = .ok text →
        ∃ e, Element.read text = some e ∧ ∀ part ∈ e.parts,
          ∃ history, Draw.Sets converter.symbols source history ∧ part.attributes.Keeps history) ∧
    ∀ (source namespaceUri display : String) (indent : Nat) (text : String),
      convert source namespaceUri display indent = .ok text →
        ∃ e, Element.read text = some e ∧ ∀ part ∈ e.parts,
          ∃ history, Draw.Sets .known source history ∧ part.attributes.Keeps history := by
  refine ⟨fun steps place e => Building.built_keeps steps, fun step trees place e => step.at?_apply,
    ?_, ?_, ?_⟩
  · intro converter source display e converted
    obtain ⟨row, drawn, rfl⟩ := ok_of_map converted
    exact Draw.formula_keeps drawn _ _
  · intro converter source display text converted
    obtain ⟨e, element, rfl⟩ := ok_of_map converted
    obtain ⟨row, drawn, rfl⟩ := ok_of_map element
    exact Draw.written_keeps drawn _ _ _
  · intro source namespaceUri display indent text converted
    obtain ⟨row, drawn, rfl⟩ := ok_of_map converted
    exact Draw.written_keeps drawn _ _ _

/-- An operator on which a name is set twice. A copy of it is put into a row and changed there, which
leaves the operator itself alone. -/
def copiedOperator : List Building.Step := [
  .new "mo",
  .setAttribute ⟨0, []⟩ "stretchy" "true",
  .setAttribute ⟨0, []⟩ "fence" "true",
  .setAttribute ⟨0, []⟩ "stretchy" "false",
  .new "mrow",
  .pushChild ⟨1, []⟩ ⟨0, []⟩,
  .setAttribute ⟨1, [0]⟩ "fence" "false"]

theorem keep_history_copied :
    Keeps [("stretchy", "false"), ("fence", "false")]
        [("stretchy", "true"), ("fence", "true"), ("stretchy", "false"), ("fence", "false")] ∧
      (∃ after, Building.at? (Building.built Element.setAttribute copiedOperator) ⟨0, []⟩ = some after ∧
        after.attributes = [("stretchy", "false"), ("fence", "true")]) ∧
      (∃ e, Converter.toElement {} "\\cal\\textbf\x7ba\x7d" .inline = .ok e ∧
        ∀ part ∈ e.parts, ∃ history, Draw.Sets .known "\\cal\\textbf\x7ba\x7d" history ∧
          part.attributes.Keeps history) ∧
      (∃ e, Element.read
          "<math display=\"inline\"><mrow><mtext mathvariant=\"script\">a</mtext></mrow></math>" = some e ∧
        ∀ part ∈ e.parts, ∃ history, Draw.Sets .known "\\cal\\textbf\x7ba\x7d" history ∧
          part.attributes.Keeps history) ∧
      ∃ e, Element.read "<math xmlns=\"n\" display=\"block\"><mrow><mspace width=\"2em\"></mspace></mrow></math>" =
          some e ∧
        ∀ part ∈ e.parts, ∃ history, Draw.Sets .known "\\qquad" history ∧
          part.attributes.Keeps history := by
  obtain ⟨built, apart, drawn, written, once⟩ := keep_history
  refine ⟨?_, ?_, ?_, ?_, ?_⟩
  · obtain ⟨noted, found, keeps⟩ := built copiedOperator ⟨1, [0]⟩ _ rfl
    cases found
    exact keeps
  · exact apart (.setAttribute ⟨1, [0]⟩ "fence" "false")
      (Building.built Element.setAttribute copiedOperator.dropLast) ⟨0, []⟩ _ rfl
  · have row : ∃ e, Converter.toElement {} "\\cal\\textbf\x7ba\x7d" .inline = .ok e := by
      exists ⟨"math", [("display", "inline")], "", [⟨"mrow", [], "", [
        ⟨"mtext", [("mathvariant", "script")], "a", []⟩]⟩]⟩
      decide +kernel
    obtain ⟨e, converted⟩ := row
    exact ⟨e, converted, drawn {} _ .inline e converted⟩
  · exact written {} _ .inline _ (by decide +kernel)
  · exact once "\\qquad" "n" "block" 0 _ (by decide +kernel)

end Attributes

end FormulaMarkup

import FormulaMarkup.Proofs.Render.CommandFits
import FormulaMarkup.Converter

/-!
How many children the elements of a converted formula have. Whether all of them have as many as they
should is told by the tree, from what its nodes are drawn as where they stand.
-/
namespace FormulaMarkup

open Element (asked? Fits FitAll fitAll_nil fitAll_cons fitAll_append fit_free fit_mk fit_shell
  fit_ofText)

namespace Draw

/-! ## Trees and sources -/

mutual

/-- Whether what a node is drawn as fits. -/
def fits (boxed : String → Bool) : Node → Bool
  | ⟨token, none, delimiter, alignment, text, attributes, modifier⟩ =>
    nodeFits boxed ⟨token, none, delimiter, alignment, text, attributes, modifier⟩
      ⟨⟨0, false⟩, 0, true, true, true⟩
  | ⟨token, some children, delimiter, alignment, text, attributes, modifier⟩ =>
    nodeFits boxed ⟨token, some children, delimiter, alignment, text, attributes, modifier⟩
      ⟨⟨children.length, children.head?.any isLimit⟩, widthOf children, allFit boxed children,
        cellsFit boxed children, firstFits boxed children⟩

/-- Whether all that a list of nodes is drawn as fits. -/
def allFit (boxed : String → Bool) : List Node → Bool
  | [] => true
  | first :: rest => fits boxed first && allFit boxed rest

/-- Whether all that stands in the cells of a table body fits. -/
def cellsFit (boxed : String → Bool) : List Node → Bool
  | [] => true
  | first :: rest =>
    (!Table.Item.isDrawn (first.token, []) || fits boxed first) && cellsFit boxed rest

/-- Whether the first node of a list fits when it is skewed. -/
def firstFits (boxed : String → Bool) : List Node → Bool
  | [] => true
  | first :: _ => fitsSkewed boxed first

/-- Whether a node fits when it is skewed, so that all that it holds is one group. -/
def fitsSkewed (boxed : String → Bool) : Node → Bool
  | ⟨token, none, delimiter, alignment, text, attributes, modifier⟩ =>
    nodeFits boxed ⟨token, none, delimiter, alignment, text, attributes, modifier⟩
      ⟨⟨0, false⟩, 0, true, true, true⟩
  | ⟨token, some children, delimiter, alignment, text, attributes, modifier⟩ =>
    nodeFits boxed ⟨token, some children, delimiter, alignment, text, attributes, modifier⟩
      ⟨⟨1, false⟩, 1, allFit boxed children, allFit boxed children, allFit boxed children⟩

end

/-- Whether all elements that a source is drawn as fit. A formula in a box that is wrong is shown as
text, which fits. -/
def sourceFits (symbols : SymbolTable) (text : String) : Bool :=
  match Formula.parse symbols text with
  | .error _ => true
  | .ok nodes =>
    allFit (fun inner => if inner.length < text.length then sourceFits symbols inner else true) nodes
termination_by text.length

section

variable {boxed : String → Bool}

theorem allFit_iff {nodes : List Node} :
    allFit boxed nodes = true ↔ ∀ node ∈ nodes, fits boxed node = true := by
  induction nodes with
  | nil => simp [allFit]
  | cons first rest ih => rw [allFit, Bool.and_eq_true, ih, List.forall_mem_cons]

theorem cellsFit_iff {nodes : List Node} :
    cellsFit boxed nodes = true ↔
      ∀ node ∈ nodes, Table.Item.isDrawn (node.token, []) = true → fits boxed node = true := by
  induction nodes with
  | nil => simp [cellsFit]
  | cons first rest ih =>
    rw [cellsFit, Bool.and_eq_true, ih, List.forall_mem_cons]
    cases Table.Item.isDrawn (first.token, []) <;> simp

theorem nothing_meets : nothing.Meets boxed ⟨⟨0, false⟩, 0, true, true, true⟩ where
  held := rfl
  width := fun _ => rfl
  count := fun _ => rfl
  all := fun _ _ => by simp [nothing]
  each := fun _ _ => by simp [nothing]
  cells := fun _ _ => by simp [nothing]
  skewed := fun _ _ _ _ => by simp [nothing]

variable {nodes : List Node}
  (each : ∀ node ∈ nodes, ∀ ctx : Context, ctx.Boxes boxed →
    (FitAll ((Draw.node ctx node).before []) ↔ fits boxed node = true))

include each

theorem group_fits {ctx : Context} (good : ctx.Boxes boxed) (behind : List Element) :
    FitAll (group ctx behind nodes) ↔ allFit boxed nodes = true ∧ FitAll behind := by
  induction nodes generalizing ctx with
  | nil => simp [group_nil, allFit]
  | cons first rest ih =>
    have head := each first List.mem_cons_self ctx good
    have later {ctx : Context} (good : ctx.Boxes boxed) :=
      ih (fun node mem => each node (List.mem_cons_of_mem _ mem)) good
    rw [group_cons, allFit, Bool.and_eq_true, and_assoc, ← head]
    cases Draw.node ctx first with
    | elements list => simp [Drawing.before, later good]
    | font font =>
      have here : Context.Boxes { ctx with font } boxed := good
      simpa [Drawing.before] using later here
    | wrapper attributes =>
      -- All that follows a switch stands within its element, which asks for no number of children.
      have bare : FitAll ((Drawing.wrapper attributes).before []) := by
        simp [Drawing.before, Drawing.styled, fit_mk (show asked? "mstyle" = none by decide)]
      rw [and_iff_right bare, ← later (good.within (Element.shell "mstyle" attributes)), fitAll_cons,
        and_iff_left fitAll_nil, fit_free (show asked? "mstyle" = none by decide)]
      rfl

theorem heldOf_meets {space : Element} (fit : space.All Fits) :
    (heldOf nodes space).Meets boxed
      ⟨⟨1, false⟩, 1, allFit boxed nodes, allFit boxed nodes, allFit boxed nodes⟩ := by
  have held {ctx : Context} (good : ctx.Boxes boxed) {behind : List Element} (last : FitAll behind) :
      FitAll [groupRow (group (ctx.within (groupRow [])) behind nodes)] ↔ allFit boxed nodes = true := by
    have inside := group_fits each (good.within (groupRow [])) behind
    rw [and_iff_left last] at inside
    rw [fitAll_cons, and_iff_left fitAll_nil, fit_free (show asked? "mrow" = none by decide)]
    exact inside
  have alone : FitAll [space] := fitAll_cons.mpr ⟨fit, fitAll_nil⟩
  have shown (elements : List Element) : Table.Item.isDrawn (Word.braces, elements) = true := rfl
  exact {
    held := rfl
    width := fun _ => rfl
    count := fun _ => rfl
    all := fun ctx good => held good alone
    each := fun ctx good => by simpa [heldOf] using held good alone
    cells := fun ctx good => by simpa [heldOf, shown] using held good alone
    skewed := fun ctx good further more => by
      have both : FitAll [space, further] := fitAll_cons.mpr ⟨fit, fitAll_cons.mpr ⟨more, fitAll_nil⟩⟩
      rw [← held good both, heldOf, fitAll_cons, and_iff_left fitAll_nil,
        fit_free (show asked? "mrow" = none by decide)]
      rfl }

theorem innerOf_meets
    (skewed : ∀ node ∈ nodes, ∀ ctx : Context, ctx.Boxes boxed → ∀ space : Element, space.All Fits →
      (FitAll (spacedNode ctx space node) ↔ fitsSkewed boxed node = true))
    {node : Node} (children : node.children = some nodes) :
    (innerOf node).Meets boxed ⟨⟨nodes.length, nodes.head?.any isLimit⟩, widthOf nodes,
      allFit boxed nodes, cellsFit boxed nodes, firstFits boxed nodes⟩ := by
  have inner : innerOf node = {
      count := nodes.length
      startsWithLimit := nodes.head?.any isLimit
      all := fun ctx => group ctx [] nodes
      each := fun ctx => Draw.each ctx nodes
      spaced := fun ctx space => spacedHead ctx space nodes } := by
    rw [innerOf, children]
  rw [inner]
  exact {
    held := rfl
    width := fun ctx => length_group ctx nodes
    count := fun ctx => by
      show (Draw.each ctx nodes).length = nodes.length
      rw [each_eq_map, List.length_map]
    all := fun ctx good => (group_fits each good []).trans (and_iff_left fitAll_nil)
    each := fun ctx good => by
      show (∀ item ∈ Draw.each ctx nodes, FitAll item.2) ↔ allFit boxed nodes = true
      rw [each_eq_map, List.forall_mem_map, allFit_iff]
      exact forall₂_congr fun node mem => each node mem ctx good
    cells := fun ctx good => by
      show (∀ item ∈ Draw.each ctx nodes, item.isDrawn = true → FitAll item.2) ↔
        cellsFit boxed nodes = true
      rw [each_eq_map, List.forall_mem_map, cellsFit_iff]
      exact forall₂_congr fun node mem => imp_congr_right fun _ => each node mem ctx good
    skewed := fun ctx good space fit => by
      cases nodes with
      | nil => simp [spacedHead, firstFits]
      | cons first rest => exact skewed first List.mem_cons_self ctx good space fit }

end

/-- What a node is drawn as fits exactly where its tree says so, and so it is when it is skewed. -/
theorem node_fits {boxed : String → Bool} (node : Node) :
    (∀ ctx : Context, ctx.Boxes boxed →
      (FitAll ((Draw.node ctx node).before []) ↔ fits boxed node = true)) ∧
    ∀ ctx : Context, ctx.Boxes boxed → ∀ space : Element, space.All Fits →
      (FitAll (spacedNode ctx space node) ↔ fitsSkewed boxed node = true) := by
  -- Both are proved at once: a skewed node draws its children as they are drawn elsewhere, and a
  -- node that skews another one draws it by the second way.
  induction node using Node.induct with
  | step node ih =>
    have each child (mem : child ∈ node.childList) := (ih child mem).1
    have skewed child (mem : child ∈ node.childList) := (ih child mem).2
    obtain ⟨token, children, delimiter, alignment, text, attributes, modifier⟩ := node
    constructor
    · intro ctx good
      rw [node_eq]
      cases children with
      | none =>
        rw [fits]
        exact drawing_fits good _ nothing_meets
      | some nodes =>
        rw [fits]
        exact drawing_fits good _ (innerOf_meets each skewed rfl)
    · intro ctx good space fit
      cases children with
      | none =>
        have alone : FitAll [space] := fitAll_cons.mpr ⟨fit, fitAll_nil⟩
        rw [spacedNode_leaf ctx space rfl, fitsSkewed, fitAll_cons, and_iff_left fitAll_nil,
          fit_free (show asked? "mrow" = none by decide), ← drawing_fits (good.within _) _ nothing_meets]
        exact (Drawing.fitAll_before _ _).trans (and_iff_left alone)
      | some nodes =>
        rw [spacedNode_children ctx space rfl, fitsSkewed]
        exact drawing_fits good _ (heldOf_meets each fit)

/-- All that a source is drawn as fits exactly where its tree says so; boxes hold shorter sources. -/
theorem source_fits {symbols : SymbolTable} {text : String} {elements : List Element}
    (drawn : source symbols text = .ok elements) :
    FitAll elements ↔ sourceFits symbols text = true := by
  induction size : text.length using Nat.strongRecOn generalizing text elements with
  | _ size ih =>
    rw [source] at drawn
    rw [sourceFits]
    cases parsed : Formula.parse symbols text with
    | error wrong =>
      rw [parsed] at drawn
      contradiction
    | ok nodes =>
      rw [parsed] at drawn
      cases drawn
      refine (group_fits (fun node _ => (node_fits node).1) ?_ []).trans (and_iff_left fitAll_nil)
      -- What is left is that boxes fit as they are said to; they only hold shorter sources.
      intro inner
      dsimp only
      split
      · rename_i shorter
        cases drawn : source symbols inner with
        | error wrong =>
          have wrong : sourceFits symbols inner = true := by
            rw [sourceFits]
            cases failed : Formula.parse symbols inner with
            | error _ => rfl
            | ok nodes =>
              rw [source] at drawn
              simp only [failed] at drawn
              contradiction
          simp [wrong, Except.toOption]
        | ok list =>
          rw [← ih inner.length (size ▸ shorter) drawn rfl]
          simp [Except.toOption]
      · simp

end Draw

namespace Converter

def scriptedFraction : Element :=
  ⟨"math", [("display", "inline")], "", [⟨"mrow", [], "", [⟨"msubsup", [], "", [
    ⟨"mi", [], "x", []⟩, ⟨"mn", [], "1", []⟩, ⟨"mrow", [], "", [⟨"mfrac", [], "", [
      ⟨"mn", [], "1", []⟩, ⟨"mn", [], "2", []⟩]⟩]⟩]⟩]⟩]⟩

end Converter

end FormulaMarkup

import FormulaMarkup.Proofs.Render.Appending
import FormulaMarkup.Symbol.Known

/-!
Drawing in parts. A list of nodes is drawn as its parts are, one behind the other: the second part in
the font that is set where the first one ends, and in an element of its own where a style switch stands
between them. What stands in a group, in an argument or in a box has no effect on what follows it.
-/
namespace FormulaMarkup

/-! ## What a node does to those that follow -/

namespace Node

/-- Whether a node puts all that follows it into an element of its own. -/
def isSwitch (node : Node) : Bool := (Style.switches.lookup node.token).isSome

/-- The font that a node sets for all that follows it. What the node holds makes no difference. -/
def font? (node : Node) : Option Font :=
  if node.isLeaf || (Font.ofArgument.lookup node.token).isNone then Font.ofRest.lookup node.token
  else none

end Node

namespace Font

/-- The font behind a list of nodes: the one that was set last, if any. -/
def after (font : Font) (nodes : List Node) : Font := (nodes.filterMap Node.font?).getLast?.getD font

theorem after_cons (font : Font) (first : Node) (rest : List Node) :
    font.after (first :: rest) = (first.font?.getD font).after rest := by
  unfold after
  cases set : first.font? with
  | none => rw [List.filterMap_cons_none set]; rfl
  | some font' =>
    rw [List.filterMap_cons_some set, List.getLast?_cons]
    rfl

/-- A command that sets the font of what follows it does nothing else. -/
theorem ofRest_free : ∀ entry ∈ ofRest, Style.switches.lookup entry.1 = none ∧
    Style.of? entry.1 = none ∧ Word.begins "\\math" entry.1 = false ∧
      (entry.1 == Word.braces) = false := by
  decide +kernel

end Font

namespace Node

variable {node : Node}

theorem font?_some {font : Font} (set : node.font? = some font) :
    (node.token, font) ∈ Font.ofRest ∧
      (if node.isLeaf then none else Font.ofArgument.lookup node.token) = none := by
  unfold font? at set
  split at set
  · rename_i free
    refine ⟨Style.mem_of_lookup set, ?_⟩
    cases leaf : node.isLeaf with
    | true => rfl
    | false => simpa [leaf] using free
  · cases set

theorem font?_switch (switch : node.isSwitch = true) : node.font? = none := by
  cases set : node.font? with
  | none => rfl
  | some font =>
    obtain ⟨other, -⟩ := Font.ofRest_free _ (font?_some set).1
    rw [isSwitch, other] at switch
    cases switch

/-- The font that a node sets is told without what the node holds. -/
theorem font?_holding (node : Node) {children : Option (List Node)} (text : Option String)
    (same : children.isSome = node.children.isSome) :
    Node.font? { node with children, text } = node.font? := by
  have leaf : Node.isLeaf { node with children, text } = node.isLeaf := by
    rw [isLeaf, isLeaf, ← Option.not_isSome, ← Option.not_isSome, same]
  unfold font?
  rw [leaf]

/-- Groups and commands with a style, to which boxes belong, keep the font. -/
theorem font?_closed (closed : node.is Word.braces = true ∨ (Style.of? node.token).isSome) :
    node.font? = none := by
  cases set : node.font? with
  | none => rfl
  | some font =>
    obtain ⟨-, unstyled, -, other⟩ := Font.ofRest_free _ (font?_some set).1
    rcases closed with braces | styled
    · rw [is, other] at braces
      cases braces
    · rw [unstyled] at styled
      cases styled

end Node

/-- A context with the font that is set behind a list of nodes. -/
def Context.after (ctx : Context) (nodes : List Node) : Context :=
  { ctx with font := ctx.font.after nodes }

namespace Draw

section

variable (ctx : Context) {node : Node} (inner : Inner)

theorem drawing_font {font : Font} (set : node.font? = some font) :
    drawing ctx node inner = .font font := by
  obtain ⟨listed, free⟩ := Node.font?_some set
  obtain ⟨unswitched, unstyled, other, -⟩ := Font.ofRest_free _ listed
  have found : Font.ofRest.lookup node.token = some font := by
    unfold Node.font? at set
    split at set
    · exact set
    · cases set
  unfold drawing
  rw [unswitched, unstyled, free, other, found]
  simp

theorem drawing_elements (open' : node.isSwitch = false) (unset : node.font? = none) :
    ∃ list, drawing ctx node inner = .elements list := by
  have unswitched : Style.switches.lookup node.token = none :=
    Option.isNone_iff_eq_none.mp (by simpa [Node.isSwitch] using open')
  unfold drawing
  rw [unswitched]
  cases Style.of? node.token with
  | some style => exact ⟨_, rfl⟩
  | none =>
    cases argument : if node.isLeaf then none else Font.ofArgument.lookup node.token with
    | some font => exact ⟨_, rfl⟩
    | none =>
      have rest : Font.ofRest.lookup node.token = none := by
        unfold Node.font? at unset
        split at unset
        · exact unset
        · rename_i held
          obtain ⟨branch, argued⟩ := Bool.or_eq_false_iff.mp (eq_false_of_ne_true held)
          rw [branch, if_neg Bool.false_ne_true] at argument
          rw [argument] at argued
          cases argued
      dsimp only
      rw [rest]
      split
      · exact ⟨_, rfl⟩
      · dsimp only
        split
        · exact ⟨_, rfl⟩
        · exact ⟨_, rfl⟩

end

/-- What a node does where it stands: it sets the font of what follows, it puts what follows into an
element of its own, or it is drawn. -/
theorem node_cases (ctx : Context) (node : Node) :
    (∃ font, node.font? = some font ∧ Draw.node ctx node = .font font) ∨
      (∃ attributes, Style.switches.lookup node.token = some attributes ∧ node.font? = none ∧
        Draw.node ctx node = .wrapper attributes) ∨
      ∃ list, node.isSwitch = false ∧ node.font? = none ∧ Draw.node ctx node = .elements list := by
  rw [node_eq]
  cases set : node.font? with
  | some font => exact .inl ⟨font, rfl, drawing_font ctx _ set⟩
  | none =>
    cases switch : Style.switches.lookup node.token with
    | some attributes => exact .inr (.inl ⟨attributes, rfl, rfl, by rw [drawing, switch]⟩)
    | none =>
      have open' : node.isSwitch = false := by rw [Node.isSwitch, switch]; rfl
      obtain ⟨list, drawn⟩ := drawing_elements ctx (innerOf node) open' set
      exact .inr (.inr ⟨list, open', rfl, drawn⟩)

/-! ## Groups -/

/-- Nodes without a switch, and what stands behind them. -/
theorem group_append (ctx : Context) (behind : List Element) {front : List Node}
    (back : List Node) (open' : ∀ node ∈ front, node.isSwitch = false) :
    group ctx behind (front ++ back) =
      group ctx [] front ++ group (ctx.after front) behind back := by
  induction front generalizing ctx with
  | nil => rw [group_nil]; rfl
  | cons first rest ih =>
    obtain ⟨unswitched, rest'⟩ := List.forall_mem_cons.mp open'
    rw [List.cons_append, group_cons, group_cons, Context.after, Font.after_cons]
    rcases node_cases ctx first with ⟨font, set, drawn⟩ | ⟨attributes, found, -⟩ | ⟨list, -, set, drawn⟩
    · rw [drawn, set]
      exact ih { ctx with font } rest'
    · rw [Node.isSwitch, found] at unswitched
      cases unswitched
    · rw [drawn, set]
      dsimp only
      rw [ih ctx rest', List.append_assoc]
      rfl

/-- A switch puts what follows it into an element of its own, behind all that stands before it. -/
theorem group_switch (ctx : Context) (front back : List Node) {switch : Node}
    {attributes : Attributes} (found : Style.switches.lookup switch.token = some attributes) :
    group ctx [] (front ++ switch :: back) =
      group ctx [(Element.shell "mstyle" attributes).appendChildren
        (group ((ctx.after front).within (Element.shell "mstyle" attributes)) [] back)] front := by
  induction front generalizing ctx with
  | nil =>
    have drawn : node ctx switch = .wrapper attributes := by
      rw [node_eq, drawing, found]
    rw [List.nil_append, group_cons, drawn, group_nil]
    rfl
  | cons first rest ih =>
    rw [List.cons_append, group_cons, group_cons, Context.after, Font.after_cons]
    rcases node_cases ctx first with ⟨font, set, drawn⟩ | ⟨wrapped, -, set, drawn⟩ | ⟨list, -, set, drawn⟩
    · rw [drawn, set]
      exact ih { ctx with font }
    · rw [drawn, set]
      dsimp only
      rw [ih]
      rfl
    · rw [drawn, set]
      dsimp only
      rw [ih]
      rfl

/-- A pen with the font that is set behind a list of nodes. -/
def Pen.after (pen : Pen) (nodes : List Node) : Pen := { pen with font := pen.font.after nodes }

/-- Writing nodes only appends to an element, and what is appended is told by the parts of the list.
Whatever the element holds stays as it is and makes no difference. What follows nodes without a switch
is written in the font that they leave. A style switch appends one element, into which all that follows
it is written in that font; where another switch stands before it, it is appended in the element of that
one. What a node holds, be it a group, the arguments of a command or the text of a box, makes no
difference to what follows the node, and the font that is set in there ends with it. -/
theorem write_composes (pen : Pen) (parent : Element) (xs ys : List Node) :
    let appended (pen : Pen) (nodes : List Node) : List Element := group (pen.context parent) [] nodes
    (∀ children, write pen [] { parent with children } xs =
      { parent with children := children ++ appended pen xs }) ∧
    ((∀ x ∈ xs, x.isSwitch = false) →
      appended pen (xs ++ ys) = appended pen xs ++ appended (pen.after xs) ys) ∧
    (∀ s attributes, Style.switches.lookup s.token = some attributes →
      let scope := write (pen.after xs) [] (Element.shell "mstyle" attributes) ys
      ((∀ x ∈ xs, x.isSwitch = false) →
        appended pen (xs ++ s :: ys) = appended pen xs ++ [scope]) ∧
      write pen [] parent (xs ++ s :: ys) = write pen [scope] parent xs) ∧
    ∀ (node : Node) (children : Option (List Node)) (text : Option String),
      node.isSwitch = false → children.isSome = node.children.isSome →
        let holding := { node with children, text }
        appended pen (holding :: ys) = appended pen [holding] ++ appended (pen.after [node]) ys ∧
          (node.is Word.braces ∨ (Style.of? node.token).isSome → pen.after [node] = pen) := by
  intro appended
  refine ⟨fun children => write_eq pen [] { parent with children } xs, ?_, ?_, ?_⟩
  · exact fun open' => group_append (pen.context parent) [] ys open'
  · intro s attributes found scope
    have inside : scope = (Element.shell "mstyle" attributes).appendChildren _ :=
      write_eq (pen.after xs) [] (Element.shell "mstyle" attributes) ys
    have split : appended pen (xs ++ s :: ys) = group (pen.context parent) [scope] xs := by
      rw [inside]
      exact group_switch (pen.context parent) xs ys found
    refine ⟨fun open' => ?_, ?_⟩
    · have behind := group_append (pen.context parent) [scope] [] open'
      rw [List.append_nil, group_nil] at behind
      rw [split, behind]
    · rw [write_eq, write_eq]
      exact congrArg parent.appendChildren split
  · intro node children text open' same holding
    have set : pen.after [holding] = pen.after [node] := by
      rw [Pen.after, Pen.after, Font.after_cons, Font.after_cons, node.font?_holding text same]
    refine ⟨?_, fun closed => ?_⟩
    · have alone : ∀ x ∈ [holding], x.isSwitch = false := List.forall_mem_singleton.mpr open'
      rw [← set]
      exact group_append (pen.context parent) [] ys alone
    · rw [Pen.after, Font.after_cons, Node.font?_closed closed]
      rfl

/-- The font that is set in front of a group is in force behind it, the one that is set in the group is
not, and a size puts what follows into an element of its own. -/
theorem write_composes_bold :
    let pen : Pen := ⟨.known, .plain, fun _ => none⟩
    let row := Element.ofTag "mrow"
    let xs := [Node.leaf "\\bf", .braces [.leaf "\\it", .leaf "a"]]
    let ys := [Node.leaf "b"]
    let scope := write (pen.after xs) [] (Element.shell "mstyle" [("mathsize", "1.2em")]) ys
    (pen.after xs).font = .identifiers "bold" ∧
      group (pen.context row) [] (xs ++ ys) =
        group (pen.context row) [] xs ++ group ((pen.after xs).context row) [] ys ∧
      group (pen.context row) [] (xs ++ .leaf "\\large" :: ys) = group (pen.context row) [] xs ++ [scope] ∧
      write pen [] row (xs ++ .leaf "\\large" :: ys) = write pen [scope] row xs ∧
      group (pen.context row) [] (.braces [.leaf "\\it", .leaf "a"] :: ys) =
        group (pen.context row) [] [.braces [.leaf "\\it", .leaf "a"]] ++
          group (pen.context row) [] ys := by
  intro pen row xs ys scope
  have open' : ∀ x ∈ xs, x.isSwitch = false := by decide
  obtain ⟨-, parts, switched, held⟩ := write_composes pen row xs ys
  obtain ⟨beside, around⟩ := switched (.leaf "\\large") [("mathsize", "1.2em")] rfl
  obtain ⟨behind, closed⟩ := held (.braces []) (some [.leaf "\\it", .leaf "a"]) none (by decide) rfl
  rw [closed (.inl rfl)] at behind
  exact ⟨by decide, parts open', beside open', around, behind⟩

end Draw

end FormulaMarkup

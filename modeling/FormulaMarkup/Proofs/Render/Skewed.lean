import FormulaMarkup.Proofs.Parsing.Attributes
import FormulaMarkup.Proofs.Render.Traversal

/-!
Skewed nodes. A skew puts a kern at the end of what its target holds, and draws the node that it
gets. Main statement: `spacedNode`, which draws what the target holds with a space behind it and builds
no node, draws the same.
-/
namespace FormulaMarkup

/-- A list in which no name is there twice is what its entries set, one after the other. -/
theorem Attributes.setAll_distinct {added : Attributes} (before : Attributes)
    (distinct : (before ++ added).names.Pairwise (· ≠ ·)) : before.setAll added = before ++ added := by
  induction added generalizing before with
  | nil => rw [List.append_nil]; rfl
  | cons entry rest ih =>
    have last : Attributes.set entry.1 entry.2 before = before ++ [entry] := by
      have absent : ∀ old ∈ before, old.1 ≠ entry.1 := by
        intro old mem
        rw [Attributes.names, List.map_append, List.pairwise_append] at distinct
        exact distinct.2.2 _ (List.mem_map_of_mem mem) _ (List.mem_map_of_mem List.mem_cons_self)
      clear ih distinct
      induction before with
      | nil => rfl
      | cons old before ih =>
        obtain ⟨head, tail⟩ := List.forall_mem_cons.mp absent
        rw [Attributes.set, if_neg head, ih tail]
        rfl
    change Attributes.setAll (Attributes.set entry.1 entry.2 before) rest = _
    rw [last, ih (before ++ [entry]) (by simpa using distinct)]
    simp

namespace Node

/-- The kern that a skew adds. -/
def kern (skew : Node) : Node := { Node.leaf "\\mkern" with attributes := skew.attributes }

/-- The target of a skew with a kern at the end of what it holds. -/
def kerned (target skew : Node) : Node :=
  match target.children with
  | none => .braces [target, kern skew]
  | some children => { target with children := some [.braces (children ++ [kern skew])] }

theorem kerned_leaf {target : Node} (leaf : target.children = none) (skew : Node) :
    kerned target skew = .braces [target, kern skew] := by
  rw [kerned, leaf]

theorem kerned_children {target : Node} {children : List Node}
    (held : target.children = some children) (skew : Node) :
    kerned target skew = { target with children := some [.braces (children ++ [kern skew])] } := by
  rw [kerned, held]

theorem tidy_kerned {target skew : Node} (tidy : target.Tidy) (sorted : skew.attributes.Sorted) :
    (kerned target skew).Tidy := by
  have last : (kern skew).Tidy := .intro sorted nofun
  have below := tidy.childList
  unfold kerned
  split
  · exact tidy_withChildren (TidyAll.cons tidy (TidyAll.cons last TidyAll.nil))
  · rename_i children held
    rw [childList, held] at below
    exact tidy_of tidy.attributes
      (TidyAll.cons (tidy_withChildren (TidyAll.append below (TidyAll.cons last TidyAll.nil))) TidyAll.nil)

end Node

namespace Draw

open Node

variable (ctx : Context)

theorem kern_drawn {skew : Node} (sorted : skew.attributes.Sorted) :
    drawing ctx (kern skew) nothing = .elements [skewSpace skew] := by
  have unswitched : Style.switches.lookup (kern skew).token = none := by
    change Style.switches.lookup "\\mkern" = none
    decide +kernel
  have styled : Style.of? (kern skew).token = some ⟨"mspace", []⟩ := by
    change Style.of? "\\mkern" = some ⟨"mspace", []⟩
    decide +kernel
  have unfenced : fences? (kern skew) = none := by
    have kept : String.ofList ((kern skew).token.toList.reverse.dropWhile (· = '*')).reverse =
        "\\mkern" := by
      change String.ofList ("\\mkern".toList.reverse.dropWhile (· = '*')).reverse = "\\mkern"
      decide +kernel
    unfold fences?
    rw [kept]
    rfl
  have alone : command ctx (kern skew) ⟨"mspace", []⟩ nothing =
      [((Element.shell "mspace" []).setAttributes skew.attributes).appendChildren []] := by
    change content ctx (kern skew) ⟨"mspace", []⟩ nothing = _
    change (let fences := fences? (kern skew)
      fence ctx.symbols _ (fences.bind Fences.opening) ++ body ctx (kern skew) ⟨"mspace", []⟩ nothing ++
        fence ctx.symbols _ (fences.bind Fences.closing) ++ []) = _
    rw [unfenced]
    rfl
  have same : Element.setAttributes (Element.shell "mspace" []) skew.attributes = skewSpace skew := by
    have all := Attributes.setAll_distinct [] (sorted.2.imp fun less => ne_of_lt less)
    exact congrArg (Element.shell "mspace") all
  rw [drawing, unswitched, styled]
  dsimp only
  rw [alone, same]
  rfl

/-- A node is drawn from what its children are drawn as, and not from the children themselves. -/
theorem drawing_children {node : Node} {children : List Node} (held : node.children.isSome)
    (inner : Inner) :
    drawing ctx { node with children := some children } inner = drawing ctx node inner := by
  obtain ⟨token, _ | children', delimiter, alignment, text, attributes, modifier⟩ := node
  · cases held
  · rfl

/-- A group is a row of what it holds. -/
theorem braces_drawn (node : Node) (braces : node.token = Word.braces) (plain : node.attributes = [])
    {children : List Node} (held : node.children = some children) (inner : Inner) :
    drawing ctx node inner = .elements [groupRow (inner.all (ctx.within (groupRow [])))] := by
  have other : Style.switches.lookup Word.braces = none ∧ Style.of? Word.braces = none ∧
      Font.ofArgument.lookup Word.braces = none ∧ Word.begins "\\math" Word.braces = false ∧
      Font.ofRest.lookup Word.braces = none := by
    decide +kernel
  obtain ⟨unswitched, unstyled, unset, other, unset'⟩ := other
  have group : node.isLeaf = false := by rw [isLeaf, held]; rfl
  rw [drawing, braces, unswitched, unstyled, group, unset, other, unset', plain]
  rfl

/-- A kern at the end of a list is drawn behind all that the list is drawn as. -/
theorem group_kern {skew : Node} (sorted : skew.attributes.Sorted) (behind : List Element)
    (nodes : List Node) :
    group ctx behind (nodes ++ [kern skew]) = group ctx (skewSpace skew :: behind) nodes := by
  induction nodes generalizing ctx with
  | nil =>
    have drawn : Draw.node ctx (kern skew) = .elements [skewSpace skew] :=
      (node_eq ctx (kern skew)).trans (kern_drawn ctx sorted)
    rw [List.nil_append, group_cons, drawn, group_nil, group_nil]
    rfl
  | cons first rest ih =>
    rw [List.cons_append, group_cons, group_cons]
    cases Draw.node ctx first with
    | elements list => exact congrArg (list ++ ·) (ih ctx)
    | font font => exact ih { ctx with font }
    | wrapper attributes =>
      exact congrArg (fun list => [(Element.shell "mstyle" attributes).appendChildren list])
        (ih (ctx.within (Element.shell "mstyle" attributes)))

theorem group_one (node : Node) (behind : List Element) :
    group ctx behind [node] = (Draw.node ctx node).before behind := by
  rw [group_cons]
  cases Draw.node ctx node with
  | elements list => rw [group_nil]; rfl
  | font font => rw [group_nil]; rfl
  | wrapper attributes => rw [group_nil]; rfl

/-- What a group with a kern at its end is drawn as, within its own element. -/
theorem group_held {skew : Node} (sorted : skew.attributes.Sorted) (behind : List Element)
    (children : List Node) :
    group ctx behind [.braces (children ++ [kern skew])] =
      groupRow (group (ctx.within (groupRow [])) [skewSpace skew] children) :: behind := by
  rw [group_one, node_eq, braces_drawn ctx _ rfl rfl rfl]
  change [groupRow (group (ctx.within (groupRow [])) [] (children ++ [kern skew]))] ++ behind = _
  rw [group_kern _ sorted]
  rfl

/-- What the children of a kerned node are drawn as. -/
theorem innerOf_kerned {skew target : Node} (sorted : skew.attributes.Sorted) {children : List Node}
    (held : target.children = some children) :
    innerOf (kerned target skew) = heldOf children (skewSpace skew) := by
  have one : innerOf (kerned target skew) =
      { count := 1
        startsWithLimit := false
        all := fun ctx => group ctx [] [.braces (children ++ [kern skew])]
        each := fun ctx => each ctx [.braces (children ++ [kern skew])]
        spaced := fun ctx further => spacedHead ctx further [.braces (children ++ [kern skew])] } := by
    rw [kerned_children held]
    rfl
  have each' (ctx : Context) : each ctx [.braces (children ++ [kern skew])] =
      [(Word.braces, group ctx [] [.braces (children ++ [kern skew])])] := by
    rw [each_eq_map, group_one]
    rfl
  have spaced (ctx : Context) (further : Element) :
      spacedHead ctx further [.braces (children ++ [kern skew])] =
        [groupRow [groupRow (group (ctx.within (groupRow [])) [skewSpace skew, further] children)]] := by
    rw [spacedHead, spacedNode_children ctx further rfl, braces_drawn ctx _ rfl rfl rfl]
    change [groupRow [groupRow (group (ctx.within (groupRow [])) [further] (children ++ [kern skew]))]] ++ []
      = _
    rw [group_kern _ sorted]
    rfl
  rw [one]
  simp only [each', group_held _ sorted, spaced]
  rfl

/-- A skewed node is drawn as the node with a kern that the skew makes of it. -/
theorem spacedNode_kerned {skew : Node} (sorted : skew.attributes.Sorted) (target : Node) :
    spacedNode ctx (skewSpace skew) target = group ctx [] [kerned target skew] := by
  cases held : target.children with
  | none =>
    rw [spacedNode_leaf _ _ held, kerned_leaf held, group_one, node_eq, braces_drawn ctx _ rfl rfl rfl]
    change _ = [groupRow (group (ctx.within (groupRow [])) [] ([target] ++ [kern skew]))] ++ []
    rw [group_kern _ sorted, group_one, node_eq, innerOf, held]
    rfl
  | some children =>
    have own : Draw.node ctx (kerned target skew) = drawing ctx target (heldOf children (skewSpace skew)) := by
      rw [node_eq, innerOf_kerned sorted held, kerned_children held, drawing_children]
      rw [held]
      rfl
    rw [spacedNode_children _ _ held, group_one, own]

end Draw

end FormulaMarkup

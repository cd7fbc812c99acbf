import FormulaMarkup.Proofs.Markup.Tidy

/-!
What elements carry: the values that their attributes have, and the values that stand somewhere
within them.
-/
namespace FormulaMarkup

/-! ## Values of attributes -/

namespace Attributes

theorem get?_cons (entry : String × String) (rest : Attributes) (name : String) :
    Attributes.get? (entry :: rest) name =
      if name = entry.1 then some entry.2 else Attributes.get? rest name := by
  rw [get?, List.lookup_cons]
  by_cases here : name = entry.1
  · rw [beq_iff_eq.mpr here, if_pos here]
  · rw [beq_eq_false_iff_ne.mpr here, if_neg here]
    rfl

variable (attributes before : Attributes) (name : String)

theorem get?_set (key value : String) :
    Attributes.get? (Attributes.set key value attributes) name =
      if name = key then some value else Attributes.get? attributes name := by
  induction attributes with
  | nil => exact get?_cons (key, value) [] name
  | cons entry rest ih =>
    rw [set]
    split
    · rename_i there
      rw [get?_cons, get?_cons, there]
      split
      · rfl
      · rfl
    · rename_i other
      rw [get?_cons, get?_cons, ih]
      split
      · rename_i here
        rw [if_neg fun same => other (here.symm.trans same)]
      · rfl

/-- A name that is not set keeps its value. -/
theorem get?_setAll_of_notMem {added : Attributes} (absent : name ∉ added.names) :
    (before.setAll added).get? name = before.get? name := by
  induction added generalizing before with
  | nil => rfl
  | cons entry rest ih =>
    rw [names, List.map_cons, List.mem_cons, not_or] at absent
    exact (ih _ absent.2).trans ((get?_set before name entry.1 entry.2).trans (if_neg absent.1))

/-- A name that is set once has the value that it is set to. -/
theorem get?_setAll {added : Attributes} (distinct : added.names.Pairwise (· ≠ ·)) {value : String}
    (found : added.get? name = some value) : (before.setAll added).get? name = some value := by
  induction added generalizing before with
  | nil => cases found
  | cons entry rest ih =>
    obtain ⟨first, distinct⟩ := List.pairwise_cons.mp distinct
    rw [get?_cons] at found
    change Attributes.get? (Attributes.setAll (Attributes.set entry.1 entry.2 before) rest) name = _
    split at found
    · rename_i here
      have absent : name ∉ names rest := fun mem => first name mem here.symm
      rw [get?_setAll_of_notMem _ _ absent, get?_set, if_pos here, found]
    · exact ih _ distinct found

end Attributes

/-! ## Elements within elements -/

namespace Element

mutual

/-- An element and all that it holds, at any depth. -/
def parts : Element → List Element
  | ⟨tag, attributes, text, children⟩ => ⟨tag, attributes, text, children⟩ :: partsOf children

def partsOf : List Element → List Element
  | [] => []
  | first :: rest => parts first ++ partsOf rest

end

variable {name value : String} {e : Element} {list : List Element}

theorem parts_eq (e : Element) : e.parts = e :: partsOf e.children := by
  obtain ⟨tag, attributes, text, children⟩ := e
  rw [parts]

theorem mem_partsOf {part : Element} : part ∈ partsOf list ↔ ∃ e ∈ list, part ∈ e.parts := by
  induction list with
  | nil => simp [partsOf]
  | cons first rest ih => simp [partsOf, ih]

/-- A value that stands on one of the elements of a list, or within them. -/
def Carried (name value : String) (list : List Element) : Prop :=
  ∃ part ∈ partsOf list, part.attribute? name = some value

theorem Carried.mono {front back : List Element} (carried : Carried name value front)
    (subset : front ⊆ back) : Carried name value back := by
  obtain ⟨part, mem, own⟩ := carried
  obtain ⟨e, listed, inside⟩ := mem_partsOf.mp mem
  exact ⟨part, mem_partsOf.mpr ⟨e, subset listed, inside⟩, own⟩

theorem carried_of_attribute (mem : e ∈ list) (own : e.attribute? name = some value) :
    Carried name value list := by
  refine ⟨e, mem_partsOf.mpr ⟨e, mem, ?_⟩, own⟩
  rw [parts_eq]
  exact List.mem_cons_self

theorem Carried.within (carried : Carried name value e.children) (mem : e ∈ list) :
    Carried name value list := by
  obtain ⟨part, inside, own⟩ := carried
  refine ⟨part, mem_partsOf.mpr ⟨e, mem, ?_⟩, own⟩
  rw [parts_eq]
  exact List.mem_cons_of_mem e inside

theorem carried_singleton (carried : Carried name value [e]) :
    e.attribute? name = some value ∨ Carried name value e.children := by
  obtain ⟨part, mem, own⟩ := carried
  rw [partsOf, partsOf, List.append_nil, parts_eq] at mem
  rcases List.mem_cons.mp mem with rfl | inside
  · exact .inl own
  · exact .inr ⟨part, inside, own⟩

theorem Carried.pushed (carried : Carried name value list) (e : Element) :
    Carried name value [e.appendChildren list] := by
  have inside : Carried name value (e.appendChildren list).children :=
    carried.mono (List.subset_append_right e.children list)
  exact inside.within (List.mem_singleton_self _)

theorem not_carried_nil : ¬ Carried name value [] := by
  rintro ⟨part, mem, -⟩
  cases mem

theorem attribute?_setAttribute {key : String} (other : name ≠ key) (e : Element) (value : String) :
    (e.setAttribute key value).attribute? name = e.attribute? name :=
  (Attributes.get?_set e.attributes name key value).trans (if_neg other)

end Element

end FormulaMarkup

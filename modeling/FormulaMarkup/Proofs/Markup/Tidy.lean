import FormulaMarkup.Proofs.Markup.Reading

/-!
Tidy elements: at every depth the tag and the names of the attributes are letters, and no name occurs
twice. Everything that changes an element keeps it tidy.
-/
namespace FormulaMarkup

instance (name : String) : Decidable (IsName name) :=
  decidable_of_iff (name ≠ "" ∧ name.toList.all Char.isAlpha = true) (by simp [IsName])

namespace Attributes

/-- The names of a list of attributes, in order. -/
def names (attributes : Attributes) : List String := attributes.map (·.1)

/-- The names are letters, and none occurs twice. -/
def Tidy (attributes : Attributes) : Prop :=
  (∀ name ∈ attributes.names, IsName name) ∧ attributes.names.Nodup

instance (attributes : Attributes) : Decidable attributes.Tidy :=
  inferInstanceAs (Decidable (_ ∧ _))

theorem tidy_of_names {attributes : Attributes} (names : List String)
    (same : attributes.names = names) (tidy : (∀ name ∈ names, IsName name) ∧ names.Nodup) :
    attributes.Tidy := by
  subst same
  exact tidy

theorem names_set (name value : String) (attributes : Attributes) :
    (attributes.set name value).names =
      if name ∈ attributes.names then attributes.names else attributes.names ++ [name] := by
  induction attributes with
  | nil => rfl
  | cons entry rest ih =>
    by_cases same : entry.1 = name
    · simp [set, names, same]
    · simp only [names] at ih
      simp only [set, same, if_false, names, List.map_cons, ih, List.mem_cons, Ne.symm same,
        false_or]
      by_cases old : name ∈ rest.map (·.1)
      · simp [old]
      · simp [old]

theorem Tidy.set {attributes : Attributes} (tidy : attributes.Tidy) {name : String}
    (letters : IsName name) (value : String) : (attributes.set name value).Tidy := by
  unfold Tidy
  rw [names_set]
  split
  · exact tidy
  · rename_i new
    refine ⟨?_, List.nodup_append.mpr ⟨tidy.2, List.pairwise_singleton _ name, ?_⟩⟩
    · simp only [List.mem_append, List.mem_singleton]
      rintro other (old | rfl)
      · exact tidy.1 other old
      · exact letters
    · intro other old last mem same
      rw [List.mem_singleton.mp mem] at same
      exact new (same ▸ old)

theorem Tidy.setAll {attributes added : Attributes} (tidy : attributes.Tidy)
    (letters : ∀ name ∈ added.names, IsName name) : (attributes.setAll added).Tidy := by
  unfold Attributes.setAll
  induction added generalizing attributes with
  | nil => exact tidy
  | cons entry rest ih =>
    have first : IsName entry.1 := letters entry.1 List.mem_cons_self
    exact ih (tidy.set first entry.2) fun name mem => letters name (List.mem_cons_of_mem _ mem)

end Attributes

namespace Element

/-- The tag is letters, and the attributes are tidy. -/
def Neat (e : Element) : Prop := IsName e.tag ∧ e.attributes.Tidy

def Tidy (e : Element) : Prop := e.All Neat

theorem All.mono {p q : Element → Prop} (weaker : ∀ e, p e → q e) {e : Element} (all : e.All p) :
    e.All q := by
  induction all with
  | intro here _ ih => exact .intro (weaker _ here) ih

theorem Neat.named {e : Element} (neat : e.Neat) : e.Named :=
  ⟨neat.1, fun entry mem => neat.2.1 entry.1 (List.mem_map_of_mem mem)⟩

def TidyAll (elements : List Element) : Prop := ∀ e ∈ elements, e.Tidy

@[simp] theorem tidyAll_nil : TidyAll [] := by
  simp [TidyAll]

@[simp] theorem tidyAll_cons {e : Element} {rest : List Element} :
    TidyAll (e :: rest) ↔ e.Tidy ∧ TidyAll rest :=
  List.forall_mem_cons

@[simp] theorem tidyAll_append {front back : List Element} :
    TidyAll (front ++ back) ↔ TidyAll front ∧ TidyAll back :=
  List.forall_mem_append

theorem tidy_mk {tag text : String} {attributes : Attributes} {children : List Element}
    (name : IsName tag) (neat : attributes.Tidy) (below : TidyAll children) :
    (⟨tag, attributes, text, children⟩ : Element).Tidy :=
  .intro ⟨name, neat⟩ below

theorem tidy_shell {tag : String} {attributes : Attributes} (name : IsName tag)
    (neat : attributes.Tidy) : (shell tag attributes).Tidy :=
  tidy_mk name neat (by simp)

theorem tidy_holding {tag : String} {children : List Element} (name : IsName tag)
    (below : TidyAll children) : (holding tag children).Tidy :=
  tidy_mk name (by decide) below

theorem tidy_ofText {tag : String} (name : IsName tag) (text : String) : (ofText tag text).Tidy :=
  tidy_mk name (by decide) (by simp)

theorem tidy_ite {p : Prop} [Decidable p] {x y : Element} (yes : x.Tidy) (no : y.Tidy) :
    (if p then x else y).Tidy := by
  split
  · exact yes
  · exact no

section

variable {e : Element} (tidy : e.Tidy)

include tidy

theorem Tidy.children : TidyAll e.children := (all_iff.mp tidy).2

theorem Tidy.neat : e.Neat := (all_iff.mp tidy).1

theorem Tidy.setText (text : String) : (e.setText text).Tidy :=
  tidy_mk tidy.neat.1 tidy.neat.2 tidy.children

theorem Tidy.setAttribute {name : String} (letters : IsName name) (value : String) :
    (e.setAttribute name value).Tidy :=
  tidy_mk tidy.neat.1 (tidy.neat.2.set letters value) tidy.children

theorem Tidy.setAttributes {added : Attributes} (neat : added.Tidy) : (e.setAttributes added).Tidy :=
  tidy_mk tidy.neat.1 (tidy.neat.2.setAll neat.1) tidy.children

theorem Tidy.appendChildren {added : List Element} (below : TidyAll added) :
    (e.appendChildren added).Tidy :=
  tidy_mk tidy.neat.1 tidy.neat.2 (tidyAll_append.mpr ⟨tidy.children, below⟩)

theorem Tidy.appendChild {child : Element} (below : child.Tidy) : (e.appendChild child).Tidy :=
  tidy.appendChildren (tidyAll_cons.mpr ⟨below, tidyAll_nil⟩)

end

end Element

end FormulaMarkup

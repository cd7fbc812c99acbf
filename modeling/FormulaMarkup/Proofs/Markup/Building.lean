import FormulaMarkup.Proofs.Markup.Carried

/-!
Building elements. Trees are begun, changed at any depth, copied and put into each other. The attributes
of an element are what is left of all that has been set on it: each name once, where it came first, and
with the value that came last. To say so, every step is taken a second time with elements that keep
all that is set on them; what is left of these is the same at every depth, step by step.
-/
namespace FormulaMarkup

/-! ## Histories -/

namespace Attributes

/-- A list of attributes is what is left of a history in which names may come again and again. -/
structure Keeps (attributes history : Attributes) : Prop where
  distinct : attributes.names.Nodup
  /-- The names stand in the order in which they came first. -/
  ordered : attributes.names = history.names.eraseDups
  /-- A name has the value that came last for it, and none if it never came. -/
  latest : ∀ name, attributes.get? name = history.reverse.lookup name

theorem Keeps.set {attributes history : Attributes} (keeps : attributes.Keeps history)
    (name value : String) : (attributes.set name value).Keeps (history ++ [(name, value)]) where
  distinct := by
    rw [names_set]
    split
    · exact keeps.distinct
    · rename_i new
      exact List.nodup_append.mpr ⟨keeps.distinct, List.pairwise_singleton _ name,
        fun old mem last single same => new (List.mem_singleton.mp single ▸ same ▸ mem)⟩
  ordered := by
    have came : name ∈ history.names ↔ name ∈ attributes.names := by
      rw [keeps.ordered, List.mem_eraseDups]
    have further : (history ++ [(name, value)]).names = history.names ++ [name] := List.map_append
    -- A name that has come before is not written again, and a new one goes to the end.
    rw [names_set, further, List.eraseDups_append, ← keeps.ordered]
    by_cases old : name ∈ attributes.names
    · simp [old, came.mpr old, List.removeAll]
    · have single : [name].eraseDups = [name] := rfl
      simp [old, mt came.mp old, List.removeAll, single]
  latest other := by
    rw [get?_set, keeps.latest, List.reverse_append, List.reverse_singleton, List.singleton_append]
    exact (get?_cons (name, value) history.reverse other).symm

theorem Keeps.setAll {attributes before : Attributes} (keeps : attributes.Keeps before)
    (added : Attributes) : (attributes.setAll added).Keeps (before ++ added) := by
  induction added generalizing attributes before with
  | nil =>
    rw [List.append_nil]
    exact keeps
  | cons entry rest ih =>
    rw [List.append_cons]
    exact ih (keeps.set entry.1 entry.2)

theorem keeps_setAll (history : Attributes) : (Attributes.setAll [] history).Keeps history := by
  have nothing : Keeps [] [] := ⟨List.nodup_nil, rfl, fun _ => rfl⟩
  exact nothing.setAll history

theorem setAll_append (before first second : Attributes) :
    before.setAll (first ++ second) = (before.setAll first).setAll second :=
  List.foldl_append

end Attributes

/-! ## Places -/

namespace Building

/-- The place of an element: the number of its tree, and the numbers of the children on the way down. -/
structure Place where
  tree : Nat
  way : List Nat := []
  deriving Repr, DecidableEq

/-- The element that a way leads to, from one of a list of elements. -/
def follow (trees : List Element) (first : Nat) : List Nat → Option Element
  | [] => trees[first]?
  | next :: way => trees[first]?.bind fun e => follow e.children next way

/-- Changes the element that a way leads to; if it leads nowhere, nothing is changed. -/
def change (f : Element → Element) (trees : List Element) (first : Nat) : List Nat → List Element
  | [] => trees.modify first f
  | next :: way => trees.modify first fun e => { e with children := change f e.children next way }

def at? (trees : List Element) (place : Place) : Option Element := follow trees place.tree place.way

def changeAt (f : Element → Element) (trees : List Element) (place : Place) : List Element :=
  change f trees place.tree place.way

/-- What is done to elements while they are built. -/
inductive Step where
  | new (tag : String)
  | setAttribute (target : Place) (name value : String)
  | setText (target : Place) (text : String)
  | createChild (target : Place) (tag : String)
  /-- Puts an element behind the children of another one. It may be wanted again, so it stays where
  it is too. -/
  | pushChild (target source : Place)
  /-- Copies an element, with all that it holds, into a tree of its own. -/
  | copy (source : Place)
  deriving Repr

/-- The trees after a step, given how an attribute is set. -/
def Step.apply (set : Element → String → String → Element) (trees : List Element) :
    Step → List Element
  | new tag => trees ++ [.ofTag tag]
  | setAttribute target name value => changeAt (set · name value) trees target
  | setText target text => changeAt (·.setText text) trees target
  | createChild target tag => changeAt (·.appendChild (.ofTag tag)) trees target
  | pushChild target source =>
    match at? trees source with
    | some child => changeAt (·.appendChild child) trees target
    | none => trees
  | copy source => trees ++ (at? trees source).toList

/-- The trees that are built by a list of steps, one after the other. -/
def built (set : Element → String → String → Element) (steps : List Step) : List Element :=
  steps.foldl (Step.apply set) []

end Building

/-! ## What is left -/

namespace Element

/-- Sets an attribute and keeps all that has been set before, also for the same name. -/
def note (e : Element) (name value : String) : Element :=
  { e with attributes := e.attributes ++ [(name, value)] }

mutual

/-- What is left of an element that keeps all that has been set, at every depth. -/
def settled : Element → Element
  | ⟨tag, attributes, text, children⟩ => ⟨tag, Attributes.setAll [] attributes, text, settledAll children⟩

def settledAll : List Element → List Element
  | [] => []
  | first :: rest => settled first :: settledAll rest

end

theorem settledAll_eq (list : List Element) : settledAll list = list.map settled := by
  induction list with
  | nil => rfl
  | cons first rest ih => rw [settledAll, ih, List.map_cons]

theorem settled_mk (tag text : String) (attributes : Attributes) (children : List Element) :
    settled ⟨tag, attributes, text, children⟩ =
      ⟨tag, Attributes.setAll [] attributes, text, children.map settled⟩ := by
  rw [settled, settledAll_eq]

theorem children_settled (e : Element) : e.settled.children = e.children.map settled := by
  cases e
  rw [settled_mk]

theorem attributes_settled (e : Element) : e.settled.attributes = Attributes.setAll [] e.attributes := by
  cases e
  rw [settled_mk]

theorem settled_note (e : Element) (name value : String) :
    (e.note name value).settled = e.settled.setAttribute name value := by
  cases e
  rw [note, settled_mk, settled_mk, Attributes.setAll_append]
  rfl

theorem settled_setText (e : Element) (text : String) :
    (e.setText text).settled = e.settled.setText text := by
  cases e
  rw [setText, settled_mk, settled_mk]
  rfl

theorem settled_appendChild (e child : Element) :
    (e.appendChild child).settled = e.settled.appendChild child.settled := by
  cases e
  rw [appendChild, settled_mk, settled_mk, List.map_append]
  rfl

theorem settled_ofTag (tag : String) : (ofTag tag).settled = ofTag tag := by
  rw [ofTag, settled_mk]
  rfl

end Element

namespace Building

theorem map_modify {f g h : Element → Element} (same : ∀ e, h (f e) = g (h e)) (trees : List Element)
    (i : Nat) : (trees.modify i f).map h = (trees.map h).modify i g := by
  apply List.ext_getElem?
  intro j
  rw [List.getElem?_map, List.getElem?_modify, List.getElem?_modify, List.getElem?_map]
  cases trees[j]? with
  | none => rfl
  | some e =>
    by_cases here : i = j
    · simp [here, same]
    · simp [here]

theorem follow_settled (trees : List Element) (first : Nat) (way : List Nat) :
    follow (trees.map Element.settled) first way = (follow trees first way).map Element.settled := by
  induction way generalizing trees first with
  | nil => exact List.getElem?_map
  | cons next way ih =>
    rw [follow, follow, List.getElem?_map]
    cases trees[first]? with
    | none => rfl
    | some e =>
      rw [Option.map_some, Option.bind_some, Option.bind_some, Element.children_settled, ih]

theorem change_settled {f g : Element → Element} (same : ∀ e, (f e).settled = g e.settled)
    (trees : List Element) (first : Nat) (way : List Nat) :
    (change f trees first way).map Element.settled =
      change g (trees.map Element.settled) first way := by
  induction way generalizing trees first with
  | nil => exact map_modify same trees first
  | cons next way ih =>
    refine map_modify ?_ trees first
    intro e
    cases e
    rw [Element.settled_mk, Element.settled_mk, ih]

/-- What is left after a step is what the step makes of what was left before it. -/
theorem Step.apply_settled (trees : List Element) (step : Step) :
    (step.apply Element.note trees).map Element.settled =
      step.apply Element.setAttribute (trees.map Element.settled) := by
  cases step with
  | new tag =>
    rw [apply, apply, List.map_append, List.map_singleton, Element.settled_ofTag]
  | setAttribute target name value =>
    exact change_settled (fun e => e.settled_note name value) _ _ _
  | setText target text => exact change_settled (fun e => e.settled_setText text) _ _ _
  | createChild target tag =>
    refine change_settled (fun e => ?_) _ _ _
    rw [e.settled_appendChild, Element.settled_ofTag]
  | pushChild target source =>
    rw [apply, apply, at?, at?, follow_settled]
    cases follow trees source.tree source.way with
    | none => rfl
    | some child => exact change_settled (fun e => e.settled_appendChild child) _ _ _
  | copy source =>
    rw [apply, apply, at?, at?, follow_settled, List.map_append]
    cases follow trees source.tree source.way with
    | none => rfl
    | some child => rfl

theorem built_settled (steps : List Step) :
    (built Element.note steps).map Element.settled = built Element.setAttribute steps := by
  have run (trees : List Element) : (steps.foldl (Step.apply Element.note) trees).map Element.settled =
      steps.foldl (Step.apply Element.setAttribute) (trees.map Element.settled) := by
    induction steps generalizing trees with
    | nil => rfl
    | cons step rest ih => rw [List.foldl_cons, List.foldl_cons, ih, Step.apply_settled]
  exact run []

/-- Every element keeps what has been set on it, wherever it stands. -/
theorem built_keeps (steps : List Step) {place : Place} {e : Element}
    (found : at? (built Element.setAttribute steps) place = some e) :
    ∃ noted, at? (built Element.note steps) place = some noted ∧
      e.attributes.Keeps noted.attributes := by
  rw [← built_settled, at?, follow_settled, Option.map_eq_some_iff] at found
  obtain ⟨noted, there, rfl⟩ := found
  refine ⟨noted, there, ?_⟩
  rw [Element.attributes_settled]
  exact Attributes.keeps_setAll noted.attributes

/-! ## What a step leaves alone -/

/-- The attributes of the element at a place after a step, given what they were before it. -/
def Step.onAttributes (step : Step) (place : Place) (attributes : Attributes) : Attributes :=
  match step with
  | setAttribute target name value =>
    if target = place then attributes.set name value else attributes
  | _ => attributes

/-- An element is still found when more elements stand behind those that it is found among. -/
theorem follow_append {trees : List Element} {first : Nat} {way : List Nat} {e : Element}
    (found : follow trees first way = some e) (more : List Element) :
    follow (trees ++ more) first way = some e := by
  have still {tree : Element} (there : trees[first]? = some tree) :
      (trees ++ more)[first]? = some tree :=
    (List.getElem?_append_left (List.getElem?_eq_some_iff.mp there).1).trans there
  cases way with
  | nil => exact still found
  | cons next way =>
    rw [follow, Option.bind_eq_some_iff] at found ⊢
    obtain ⟨tree, there, below⟩ := found
    exact ⟨tree, still there, below⟩

/-- A change that at most adds children changes the attributes of no other element. -/
theorem follow_change {f : Element → Element} {added : List Element}
    (grown : ∀ e, (f e).children = e.children ++ added) (first : Nat) (way : List Nat)
    {trees : List Element} {tree : Nat} {down : List Nat} {e : Element}
    (found : follow trees tree down = some e) :
    ∃ after, follow (change f trees first way) tree down = some after ∧
      after.attributes =
        if (⟨first, way⟩ : Place) = ⟨tree, down⟩ then (f e).attributes else e.attributes := by
  -- Both ways are followed down together, up to where they part or one of them ends.
  induction way generalizing trees first tree down with
  | nil =>
    rw [change]
    cases down with
    | nil =>
      rw [follow] at found
      rw [follow, List.getElem?_modify, found]
      by_cases here : first = tree
      · simp [here]
      · simp [here]
    | cons next down =>
      rw [follow, Option.bind_eq_some_iff] at found
      obtain ⟨held, there, below⟩ := found
      rw [follow, List.getElem?_modify, there]
      refine ⟨e, ?_, by simp⟩
      by_cases here : first = tree
      · simpa [here, grown] using follow_append below added
      · simpa [here] using below
  | cons next way ih =>
    rw [change]
    cases down with
    | nil =>
      rw [follow] at found
      rw [follow, List.getElem?_modify, found]
      by_cases here : first = tree
      · simp [here]
      · simp [here]
    | cons next' down =>
      rw [follow, Option.bind_eq_some_iff] at found
      obtain ⟨held, there, below⟩ := found
      rw [follow, List.getElem?_modify, there]
      by_cases here : first = tree
      · obtain ⟨after, reached, same⟩ := ih next below
        exact ⟨after, by simpa [here] using reached, by simpa [here] using same⟩
      · exact ⟨e, by simpa [here] using below, by simp [here]⟩

/-- A step leaves every element in its place, and sets no attribute but on its target. -/
theorem Step.at?_apply (step : Step) {trees : List Element} {place : Place} {e : Element}
    (found : at? trees place = some e) :
    ∃ after, at? (step.apply Element.setAttribute trees) place = some after ∧
      after.attributes = step.onAttributes place e.attributes := by
  have kept (f : Element → Element) (added : List Element) (target : Place)
      (grown : ∀ e, (f e).children = e.children ++ added)
      (same : ∀ e, (f e).attributes = e.attributes) :
      ∃ after, at? (changeAt f trees target) place = some after ∧ after.attributes = e.attributes := by
    obtain ⟨after, reached, left⟩ := follow_change grown target.tree target.way found
    rw [same, ite_self] at left
    exact ⟨after, reached, left⟩
  cases step with
  | new tag => exact ⟨e, follow_append found _, rfl⟩
  | setAttribute target name value =>
    have grown (e : Element) : (e.setAttribute name value).children = e.children ++ [] :=
      (List.append_nil _).symm
    exact follow_change grown target.tree target.way found
  | setText target text =>
    exact kept (·.setText text) [] target (fun _ => (List.append_nil _).symm) (fun _ => rfl)
  | createChild target tag =>
    exact kept (·.appendChild (.ofTag tag)) [.ofTag tag] target (fun _ => rfl) (fun _ => rfl)
  | pushChild target source =>
    rw [apply]
    cases at? trees source with
    | none => exact ⟨e, found, rfl⟩
    | some child => exact kept (·.appendChild child) [child] target (fun _ => rfl) (fun _ => rfl)
  | copy source => exact ⟨e, follow_append found _, rfl⟩

end Building

end FormulaMarkup

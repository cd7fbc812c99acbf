import FormulaMarkup.Markup.Written
import Mathlib.Data.List.Basic

/-!
Reading what is written. Entities are decoded, tags and attribute names are ASCII letters, and the
text of an element goes up to its first child or its end tag. Where a line break follows the
children, one stands before them too, and it is no part of the text. The reader is told neither the
width nor the level. Main statement: it recovers every element whose names are letters.
-/
namespace FormulaMarkup

/-! ## Entities -/

namespace Escape

def decode : List Char → List Char
  | '&' :: 'a' :: 'm' :: 'p' :: ';' :: cs => '&' :: decode cs
  | '&' :: 'l' :: 't' :: ';' :: cs => '<' :: decode cs
  | '&' :: 'g' :: 't' :: ';' :: cs => '>' :: decode cs
  | '&' :: 'q' :: 'u' :: 'o' :: 't' :: ';' :: cs => '"' :: decode cs
  | c :: cs => c :: decode cs
  | [] => []

theorem decode_cons {c : Char} (plain : c ≠ '&') (cs : List Char) :
    decode (c :: cs) = c :: decode cs := by
  rw [decode] <;> simp [plain]

theorem decode_contentChar (c : Char) (cs : List Char) :
    decode (contentChar c ++ cs) = c :: decode cs := by
  unfold contentChar
  split
  · rfl
  · rfl
  · rfl
  · rename_i amp _ _
    exact decode_cons amp cs

theorem decode_attributeChar (c : Char) (cs : List Char) :
    decode (attributeChar c ++ cs) = c :: decode cs := by
  unfold attributeChar
  split
  · rfl
  · rfl
  · rename_i amp _
    exact decode_cons amp cs

theorem decode_content (s : String) : decode (content s) = s.toList := by
  unfold content
  induction s.toList with
  | nil => rfl
  | cons c cs ih => rw [List.flatMap_cons, decode_contentChar, ih]

theorem decode_attributeValue (s : String) : decode (attributeValue s) = s.toList := by
  unfold attributeValue
  induction s.toList with
  | nil => rfl
  | cons c cs ih => rw [List.flatMap_cons, decode_attributeChar, ih]

theorem lt_notMem_content (s : String) : '<' ∉ content s := by
  intro found
  obtain ⟨c, -, hc⟩ := List.mem_flatMap.mp found
  unfold contentChar at hc
  split at hc
  · exact absurd hc (by decide)
  · exact absurd hc (by decide)
  · exact absurd hc (by decide)
  · rename_i other _
    exact other (List.mem_singleton.mp hc).symm

theorem quote_notMem_attributeValue (s : String) : '"' ∉ attributeValue s := by
  intro found
  obtain ⟨c, -, hc⟩ := List.mem_flatMap.mp found
  unfold attributeChar at hc
  split at hc
  · exact absurd hc (by decide)
  · exact absurd hc (by decide)
  · rename_i other
    exact other (List.mem_singleton.mp hc).symm

end Escape

/-! ## Elements whose names are letters -/

def IsName (name : String) : Prop := name ≠ "" ∧ ∀ c ∈ name.toList, c.isAlpha = true

namespace Element

/-- An element with a property at every depth. -/
inductive All (p : Element → Prop) : Element → Prop where
  | intro {e : Element} (here : p e) (below : ∀ child ∈ e.children, All p child) : All p e

theorem all_iff {p : Element → Prop} {e : Element} :
    e.All p ↔ p e ∧ ∀ child ∈ e.children, child.All p := by
  constructor
  · rintro ⟨here, below⟩
    exact ⟨here, below⟩
  · rintro ⟨here, below⟩
    exact .intro here below

mutual

/-- Decides whether an element has a property at every depth. -/
def decAll (p : Element → Prop) [DecidablePred p] : (e : Element) → Decidable (e.All p)
  | ⟨tag, attributes, text, children⟩ =>
    match decAllOf p children with
    | .isTrue below =>
      decidable_of_iff (p ⟨tag, attributes, text, children⟩)
        ⟨fun here => .intro here below, fun all => (all_iff.mp all).1⟩
    | .isFalse above => .isFalse fun all => above (all_iff.mp all).2

/-- Decides whether all elements of a list have a property at every depth. -/
def decAllOf (p : Element → Prop) [DecidablePred p] :
    (elements : List Element) → Decidable (∀ e ∈ elements, e.All p)
  | [] => .isTrue nofun
  | e :: rest =>
    match decAll p e, decAllOf p rest with
    | .isTrue first, .isTrue later => .isTrue (List.forall_mem_cons.mpr ⟨first, later⟩)
    | .isFalse first, _ => .isFalse fun all => first (List.forall_mem_cons.mp all).1
    | _, .isFalse later => .isFalse fun all => later (List.forall_mem_cons.mp all).2

end

instance (p : Element → Prop) [DecidablePred p] : DecidablePred (Element.All p) := decAll p

/-- The tag and the names of the attributes are names. -/
def Named (e : Element) : Prop := IsName e.tag ∧ ∀ entry ∈ e.attributes, IsName entry.1

end Element

/-! ## The reader -/

namespace Reading

/-- A text without its last line break and the indentation behind it. -/
def beforeBreak (run : List Char) : List Char :=
  ((run.reverse.dropWhile (· ≠ '\n')).drop 1).reverse

/-- Attributes up to the end of a start tag, and what stands behind it. -/
def attributes : Nat → List Char → Option (Attributes × List Char)
  | _, '>' :: cs => some ([], cs)
  | budget + 1, ' ' :: cs =>
    match cs.dropWhile Char.isAlpha with
    | '=' :: '"' :: behind =>
      let value := Escape.decode (behind.takeWhile (· ≠ '"'))
      match attributes budget ((behind.dropWhile (· ≠ '"')).drop 1) with
      | some (more, rest) =>
        some ((String.ofList (cs.takeWhile Char.isAlpha), String.ofList value) :: more, rest)
      | none => none
    | _ => none
  | _, _ => none

mutual

def element : Nat → List Char → Option (Element × List Char)
  | budget + 1, '<' :: cs =>
    let tag := cs.takeWhile Char.isAlpha
    match attributes budget (cs.dropWhile Char.isAlpha) with
    | none => none
    | some (attributes, inside) =>
      let run := inside.takeWhile (· ≠ '<')
      match children budget (inside.dropWhile (· ≠ '<')) with
      | none => none
      | some (children, broken, behind) =>
        let text := Escape.decode (if broken then beforeBreak run else run)
        if (tag ++ ['>']).isPrefixOf behind then
          some (⟨String.ofList tag, attributes, String.ofList text, children⟩,
            behind.drop (tag.length + 1))
        else none
  | _, _ => none

/-- Elements up to an end tag, whether something stands behind the first of them, and what stands
behind the start of the end tag. -/
def children : Nat → List Char → Option (List Element × Bool × List Char)
  | _, '<' :: '/' :: cs => some ([], false, cs)
  | budget + 1, cs =>
    match element budget cs with
    | none => none
    | some (child, behind) =>
      match children budget (behind.dropWhile (· ≠ '<')) with
      | none => none
      | some (more, _, rest) =>
        some (child :: more, !(behind.takeWhile (· ≠ '<')).isEmpty, rest)
  | 0, _ => none

end

/-! ## Reading back -/

/-- A class of characters goes no further than a run of them. -/
theorem takeWhile_run {p : Char → Bool} {run : List Char} (inside : ∀ c ∈ run, p c = true)
    {stop : Char} (outside : p stop = false) (rest : List Char) :
    (run ++ stop :: rest).takeWhile p = run := by
  rw [List.takeWhile_append_of_pos inside, List.takeWhile_cons_of_neg (by simp [outside]),
    List.append_nil]

theorem dropWhile_run {p : Char → Bool} {run : List Char} (inside : ∀ c ∈ run, p c = true)
    {stop : Char} (outside : p stop = false) (rest : List Char) :
    (run ++ stop :: rest).dropWhile p = stop :: rest := by
  rw [List.dropWhile_append_of_pos inside, List.dropWhile_cons_of_neg (by simp [outside])]

theorem takeWhile_until {stop : Char} {run : List Char} (absent : stop ∉ run) (rest : List Char) :
    (run ++ stop :: rest).takeWhile (· ≠ stop) = run :=
  takeWhile_run (fun _ hc => decide_eq_true (ne_of_mem_of_not_mem hc absent)) (by simp) rest

theorem dropWhile_until {stop : Char} {run : List Char} (absent : stop ∉ run) (rest : List Char) :
    (run ++ stop :: rest).dropWhile (· ≠ stop) = stop :: rest :=
  dropWhile_run (fun _ hc => decide_eq_true (ne_of_mem_of_not_mem hc absent)) (by simp) rest

theorem attributes_written (as : Attributes) (named : ∀ entry ∈ as, IsName entry.1)
    (budget : Nat) (enough : (writtenAttributes as).length ≤ budget) (rest : List Char) :
    attributes budget (writtenAttributes as ++ '>' :: rest) = some (as, rest) := by
  induction as generalizing budget with
  | nil => cases budget <;> rfl
  | cons entry as ih =>
    obtain ⟨name, value⟩ := entry
    have letters : ∀ c ∈ name.toList, c.isAlpha = true := (named (name, value) (by simp)).2
    have quoteless := Escape.quote_notMem_attributeValue value
    have shape : writtenAttributes ((name, value) :: as) ++ '>' :: rest =
        ' ' :: (name.toList ++ '=' :: '"' :: (Escape.attributeValue value ++
          '"' :: (writtenAttributes as ++ '>' :: rest))) := by
      simp [writtenAttributes]
    cases budget with
    | zero => simp [writtenAttributes] at enough
    | succ budget =>
      have fewer : (writtenAttributes as).length ≤ budget := by
        simp [writtenAttributes] at enough ⊢
        omega
      have tail := ih (fun e he => named e (by simp [he])) budget fewer
      rw [shape, attributes, dropWhile_run letters (by decide), takeWhile_run letters (by decide)]
      simp only [dropWhile_until quoteless, takeWhile_until quoteless, List.drop_succ_cons,
        List.drop_zero, tail, Escape.decode_attributeValue, String.ofList_toList]

theorem beforeBreak_append (run : List Char) (count : Nat) :
    beforeBreak (run ++ '\n' :: List.replicate count ' ') = run := by
  have spaces : '\n' ∉ List.replicate count ' ' := by simp [List.mem_replicate]
  have shape : (run ++ '\n' :: List.replicate count ' ').reverse =
      List.replicate count ' ' ++ '\n' :: run.reverse := by simp
  rw [beforeBreak, shape, dropWhile_until spaces]
  simp

theorem lt_notMem_lineBreak (width level : Nat) : '<' ∉ lineBreak width level := by
  unfold lineBreak
  split <;> simp [List.mem_replicate]

/-- What stands behind a child: the next children, or the line break before the end tag. -/
def behindChild (width level : Nat) : List Element → List Char
  | [] => lineBreak width level
  | next :: more => writtenChildren width level (next :: more)

theorem writtenChildren_cons (width level : Nat) (child : Element) (more : List Element) :
    writtenChildren width level (child :: more) =
      lineBreak width (level + 1) ++ child.writtenAt width (level + 1) ++
        behindChild width level more := by
  cases more <;> rfl

/-- No written element begins like an end tag. -/
theorem writtenAt_start {e : Element} (named : e.Named) (width level : Nat) :
    ∃ c cs, e.writtenAt width level = '<' :: c :: cs ∧ c ≠ '/' := by
  obtain ⟨tag, attributes, text, children⟩ := e
  obtain ⟨nonempty, letters⟩ : IsName tag := named.1
  cases chars : tag.toList with
  | nil => exact absurd (String.toList_eq_nil_iff.mp chars) nonempty
  | cons c cs =>
    rw [chars] at letters
    refine ⟨c, _, by simp [Element.writtenAt, chars]; rfl, ?_⟩
    rintro rfl
    exact absurd (letters '/' (by simp)) (by decide)

theorem length_writtenAt_pos {e : Element} (named : e.Named) (width level : Nat) :
    0 < (e.writtenAt width level).length := by
  obtain ⟨c, cs, start, -⟩ := writtenAt_start named width level
  simp [start]

theorem isEmpty_lineBreak (width level : Nat) :
    (lineBreak width level).isEmpty = decide (width = 0) := by
  unfold lineBreak
  split <;> simp_all

/-- The reader recovers an element from its written form, wherever it stands. -/
def Recovered (width : Nat) (e : Element) : Prop :=
  ∀ (level budget : Nat) (rest : List Char), (e.writtenAt width level).length ≤ budget →
    element budget (e.writtenAt width level ++ rest) = some (e, rest)

/- One child with the line break behind it: what follows is read as further children. -/
theorem children_child {width : Nat} {child : Element} (named : child.Named)
    (recovered : Recovered width child) (level budget level' : Nat) (rest : List Char)
    (enough : (child.writtenAt width level).length ≤ budget) :
    children (budget + 1)
        (child.writtenAt width level ++ (lineBreak width level' ++ '<' :: rest)) =
      (children budget ('<' :: rest)).map fun (more, _, behind) =>
        (child :: more, decide (width ≠ 0), behind) := by
  obtain ⟨c, cs, start, other⟩ := writtenAt_start named width level
  have first := recovered level budget (lineBreak width level' ++ '<' :: rest) enough
  have gap := lt_notMem_lineBreak width level'
  rw [start] at first ⊢
  rw [List.cons_append, List.cons_append] at first ⊢
  rw [children, first]
  · simp only [takeWhile_until gap, dropWhile_until gap, isEmpty_lineBreak]
    cases children budget ('<' :: rest) with
    | none => rfl
    | some result => simp
  · simp [other]

theorem children_written {width : Nat} (level : Nat) (child : Element) (more : List Element)
    (named : ∀ e ∈ child :: more, e.Named) (recovered : ∀ e ∈ child :: more, Recovered width e)
    (budget : Nat) (rest : List Char)
    (enough : (child.writtenAt width (level + 1) ++ behindChild width level more).length < budget) :
    children budget (child.writtenAt width (level + 1) ++ behindChild width level more ++
      '<' :: '/' :: rest) = some (child :: more, decide (width ≠ 0), rest) := by
  induction more generalizing child budget with
  | nil =>
    cases budget with
    | zero => omega
    | succ budget =>
      simp only [List.length_append] at enough
      rw [List.append_assoc, behindChild, children_child (named child (by simp))
        (recovered child (by simp)) (level + 1) budget level _ (by omega)]
      simp [children]
  | cons next more ih =>
    cases budget with
    | zero => omega
    | succ budget =>
      obtain ⟨c, cs, start, -⟩ := writtenAt_start (named next (by simp)) width (level + 1)
      have positive := length_writtenAt_pos (named child (by simp)) width (level + 1)
      have tail := ih next (fun e he => named e (by simp [he]))
        (fun e he => recovered e (by simp [he])) budget
      rw [behindChild, writtenChildren_cons] at enough ⊢
      simp only [List.length_append] at enough tail
      specialize tail (by omega)
      simp only [List.append_assoc, start, List.cons_append] at tail ⊢
      rw [children_child (named child (by simp)) (recovered child (by simp)) (level + 1) budget
        (level + 1) _ (by omega), tail]
      rfl

/-- Where a start tag ends: no letter stands behind a list of attributes. -/
theorem tag_end (as : Attributes) (rest : List Char) :
    ∃ c cs, writtenAttributes as ++ '>' :: rest = c :: cs ∧ c.isAlpha = false := by
  cases as with
  | nil => exact ⟨'>', rest, rfl, by decide⟩
  | cons entry as => exact ⟨' ', _, by simp [writtenAttributes]; rfl, by decide⟩

/- The frame of an element: what stands between its tags is a run of text and its children. -/
theorem element_frame {tag : String} {as : Attributes} (name : IsName tag)
    (names : ∀ entry ∈ as, IsName entry.1) {run : List Char} (plain : '<' ∉ run)
    {list : List Element} {broken : Bool} (budget : Nat) (inside rest : List Char)
    (enough : (writtenAttributes as).length ≤ budget)
    (within : children budget ('<' :: inside) =
      some (list, broken, tag.toList ++ ['>'] ++ rest)) :
    element (budget + 1) ('<' :: (tag.toList ++ (writtenAttributes as ++ '>' ::
        (run ++ '<' :: inside)))) =
      some (⟨tag, as, String.ofList (Escape.decode (if broken then beforeBreak run else run)),
        list⟩, rest) := by
  obtain ⟨c, cs, start, other⟩ := tag_end as (run ++ '<' :: inside)
  have letters : ∀ c ∈ tag.toList, c.isAlpha = true := name.2
  have attrs := attributes_written as names budget enough (run ++ '<' :: inside)
  rw [start] at attrs ⊢
  rw [element, takeWhile_run letters other, dropWhile_run letters other, attrs]
  simp only [takeWhile_until plain, dropWhile_until plain, within]
  rw [if_pos (List.isPrefixOf_iff_prefix.mpr (List.prefix_append _ _)), String.ofList_toList]
  simp

theorem decode_run (text : String) (width level : Nat) :
    Escape.decode (if decide (width ≠ 0) then beforeBreak (Escape.content text ++
      lineBreak width level) else Escape.content text ++ lineBreak width level) = text.toList := by
  by_cases compact : width = 0
  · simp [compact, lineBreak, Escape.decode_content]
  · simp [compact, lineBreak, beforeBreak_append, Escape.decode_content]

theorem element_written {e : Element} (named : e.All Element.Named) (width : Nat) :
    Recovered width e := by
  induction named with
  | @intro e here below ih =>
    obtain ⟨tag, as, text, list⟩ := e
    intro level budget rest enough
    have name : IsName tag := here.1
    have names : ∀ entry ∈ as, IsName entry.1 := here.2
    have plain := Escape.lt_notMem_content text
    cases budget with
    | zero => simp [Element.writtenAt] at enough
    | succ budget =>
      simp only [Element.writtenAt, List.length_append, List.length_cons] at enough
      cases list with
      | nil =>
        have frame := element_frame name names plain budget
          ('/' :: (tag.toList ++ ['>'] ++ rest)) rest (by omega) (by rw [children])
        simpa [Element.writtenAt, writtenChildren, Escape.decode_content] using frame
      | cons child more =>
        have gap : '<' ∉ Escape.content text ++ lineBreak width (level + 1) := by
          simp [plain, lt_notMem_lineBreak]
        have all : ∀ e ∈ child :: more, e.Named := fun e he => (Element.all_iff.mp (below e he)).1
        obtain ⟨c, cs, start, -⟩ := writtenAt_start (all child (by simp)) width (level + 1)
        rw [writtenChildren_cons] at enough
        simp only [List.length_append] at enough
        have within := children_written level child more all ih budget (tag.toList ++ ['>'] ++ rest)
          (by simp only [List.length_append]; omega)
        rw [start] at within
        simp only [List.cons_append] at within
        have frame := element_frame name names gap budget _ rest (by omega) within
        rw [decode_run, String.ofList_toList] at frame
        rw [Element.writtenAt, writtenChildren_cons, start]
        simpa using frame

end Reading

/-- The element that a text is the written form of. -/
def Element.read (text : String) : Option Element :=
  match Reading.element text.length text.toList with
  | some (e, []) => some e
  | _ => none

namespace Element

/-- Reading gives back every element whose names are letters, at every width. -/
theorem read_written {e : Element} (named : e.All Named) (width : Nat) :
    read (e.written width) = some e := by
  have whole := Reading.element_written named width 0 (e.writtenAt width 0).length [] (Nat.le_refl _)
  rw [List.append_nil] at whole
  simp [read, written, whole]

end Element

end FormulaMarkup

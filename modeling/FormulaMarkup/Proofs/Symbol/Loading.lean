import FormulaMarkup.Symbol.Table
import FormulaMarkup.Proofs.Symbol.Records
import Mathlib.Data.Finset.Dedup
import Mathlib.Data.List.Infix
import Mathlib.Data.Set.Card

/-!
What the table of a symbol file says about a name, in terms of the text alone: which places of the text list
the name, which of them comes first, and what the corrections make of it. Main statement: the table of a text
gives a name the code that the text and the corrections stand for, whatever else the text holds.
-/
namespace FormulaMarkup.SymbolFile

/-! ## Places -/

/-- A place in a text at which a name may be listed. -/
structure Place where
  line : Nat
  slot : Nat

namespace Place

/-- Places are read line by line, and in a line slot by slot. -/
def Before (earlier later : Place) : Prop :=
  earlier.line < later.line ∨ earlier.line = later.line ∧ earlier.slot < later.slot

end Place

/-- A text lists a name for a code at a place. -/
def Occurs (text name : String) (place : Place) (code : Nat) : Prop :=
  ∃ line, (lines text.toList)[place.line]? = some line ∧ Listed line place.slot name.toList code

/-- The first place of a text that lists a name lists it for a code. -/
def First (text name : String) (code : Nat) : Prop :=
  ∃ place, Occurs text name place code ∧
    ∀ earlier, earlier.Before place → ∀ other, ¬ Occurs text name earlier other

/-- A line lists a name for a code, at whichever slot. -/
def Lists (line : List Char) (name : String) (code : Nat) : Prop :=
  ∃ slot, Listed line slot name.toList code

theorem Lists.unique {line : List Char} {name other : String} {code number : Nat}
    (lists : Lists line name code) (again : Lists line other number) : code = number := by
  obtain ⟨record, found, rfl, -⟩ := listed_iff.mp lists
  obtain ⟨record', found', rfl, -⟩ := listed_iff.mp again
  rw [Option.some.inj (found.symm.trans found')]

/-- The first line that lists a name. All slots of a line are for one code, so their order does not show. -/
theorem first_iff {text name : String} {code : Nat} :
    First text name code ↔ ∃ front line back, lines text.toList = front ++ line :: back ∧
      Lists line name code ∧ ∀ earlier ∈ front, ∀ other, ¬ Lists earlier name other := by
  constructor
  · rintro ⟨place, ⟨line, at_line, listed⟩, least⟩
    obtain ⟨front, back, split, index⟩ : ∃ front back, lines text.toList = front ++ line :: back ∧
        front.length = place.line := by
      obtain ⟨bound, rfl⟩ := List.getElem?_eq_some_iff.mp at_line
      refine ⟨(lines text.toList).take place.line, (lines text.toList).drop (place.line + 1), ?_, ?_⟩
      · rw [← List.drop_eq_getElem_cons bound, List.take_append_drop]
      · exact List.length_take_of_le bound.le
    refine ⟨front, line, back, split, ⟨place.slot, listed⟩, ?_⟩
    rintro earlier mem other ⟨slot, lists⟩
    obtain ⟨number, bound, rfl⟩ := List.getElem_of_mem mem
    apply least ⟨number, slot⟩ (.inl (index ▸ bound)) other
    refine ⟨_, ?_, lists⟩
    rw [split, List.getElem?_append_left bound, List.getElem?_eq_getElem bound]
  · rintro ⟨front, line, back, split, ⟨slot, listed⟩, earlier⟩
    classical
    have some' : ∃ slot, Listed line slot name.toList code := ⟨slot, listed⟩
    refine ⟨⟨front.length, Nat.find some'⟩, ⟨line, by rw [split]; simp, Nat.find_spec some'⟩, ?_⟩
    rintro ⟨number, slot'⟩ before other ⟨found, at_line, lists⟩
    rw [split] at at_line
    obtain less | ⟨same, less⟩ := before
    · rw [List.getElem?_append_left less] at at_line
      exact earlier found (List.mem_of_getElem? at_line) other ⟨slot', lists⟩
    · obtain rfl : number = front.length := same
      rw [List.getElem?_append_right le_rfl, Nat.sub_self] at at_line
      obtain rfl : line = found := Option.some.inj at_line
      obtain rfl : code = other := Lists.unique ⟨slot, listed⟩ ⟨slot', lists⟩
      exact Nat.find_min some' less lists

/-! ## What the lines list -/

/-- The entries that a line adds to a table. -/
def entriesOf (line : List Char) : List (String × Nat) :=
  SymbolTable.listed (SymbolRecord.ofLine? line).toList

theorem listed_eq_flatMap (text : List (List Char)) :
    SymbolTable.listed (text.filterMap SymbolRecord.ofLine?) = text.flatMap entriesOf := by
  induction text with
  | nil => rfl
  | cons line rest ih =>
    rw [List.flatMap_cons, ← ih, entriesOf, List.filterMap_cons]
    cases SymbolRecord.ofLine? line <;> simp [SymbolTable.listed]

theorem mem_entriesOf {line : List Char} {name : String} {code : Nat} :
    (name, code) ∈ entriesOf line ↔ Lists line name code := by
  rw [Lists, listed_iff, entriesOf, SymbolTable.listed]
  simp only [List.mem_flatMap, Option.mem_toList, List.mem_map, Prod.mk.injEq]
  constructor
  · rintro ⟨record, found, _, mem, rfl, rfl⟩
    exact ⟨record, found, rfl, mem⟩
  · rintro ⟨record, found, rfl, mem⟩
    exact ⟨record, found, name, mem, rfl, rfl⟩

theorem mem_of_lookup {α β : Type} [BEq α] [LawfulBEq α] {key : α} {value : β} {entries : List (α × β)}
    (found : entries.lookup key = some value) : (key, value) ∈ entries := by
  obtain ⟨front, back, rfl, -⟩ := List.lookup_eq_some_iff.mp found
  exact List.mem_append_right front List.mem_cons_self

theorem lookup_of_mem {α β : Type} [BEq α] [LawfulBEq α] {key : α} {value : β} {entries : List (α × β)}
    (only : ∀ other, (key, other) ∈ entries → other = value) (mem : (key, value) ∈ entries) :
    entries.lookup key = some value := by
  cases found : entries.lookup key with
  | none =>
    have := List.lookup_eq_none_iff.mp found _ mem
    simp at this
  | some other => rw [only other (mem_of_lookup found)]

theorem lookup_entriesOf {line : List Char} {name : String} {code : Nat} :
    (entriesOf line).lookup name = some code ↔ Lists line name code := by
  constructor
  · intro found
    exact mem_entriesOf.mp (mem_of_lookup found)
  · intro lists
    apply lookup_of_mem
    · intro other mem
      exact (mem_entriesOf.mp mem).unique lists
    · exact mem_entriesOf.mpr lists

theorem lookup_flatMap {α β γ : Type} [BEq β] (f : α → List (β × γ)) (key : β) (as : List α) :
    (as.flatMap f).lookup key = as.findSome? fun a => (f a).lookup key := by
  induction as with
  | nil => rfl
  | cons a as ih =>
    rw [List.flatMap_cons, List.lookup_append, ih, List.findSome?_cons]
    cases (f a).lookup key <;> rfl

theorem lookup_listed {text name : String} {code : Nat} :
    (SymbolTable.listed (SymbolRecord.ofText text)).lookup name = some code ↔ First text name code := by
  rw [SymbolRecord.ofText, linesOf_eq, listed_eq_flatMap, lookup_flatMap, List.findSome?_eq_some_iff,
    first_iff]
  simp only [lookup_entriesOf, Option.eq_none_iff_forall_ne_some, ne_eq]

/-! ## Corrections -/

/-- What the corrections and a text make of a name. -/
inductive Gives (text name : String) : Nat → Prop
  | fixed {code : Nat} (corrected : (name, .code code) ∈ corrections) : Gives text name code
  | alias {target : String} {code : Nat} (corrected : (name, .sameAs target) ∈ corrections)
      (first : First text target code) : Gives text name code
  | listed {code : Nat} (unfixed : ∀ number, (name, .code number) ∉ corrections)
      (unresolved : ∀ target, (name, .sameAs target) ∈ corrections → ∀ number, ¬ First text target number)
      (first : First text name code) : Gives text name code

/-- No name has two corrections, so that their order does not show. -/
theorem corrections_nodup : (corrections.map Prod.fst).Nodup := by
  decide

theorem correction_unique {name : String} {correction other : Correction}
    (mem : (name, correction) ∈ corrections) (mem' : (name, other) ∈ corrections) : correction = other :=
  (Prod.mk.inj (List.inj_on_of_nodup_map corrections_nodup mem mem' rfl)).2

/-- The entries that the corrections add, given what the records list. -/
def corrected (names : List (String × Nat)) : List (String × Nat) :=
  corrections.filterMap fun (name, correction) =>
    (SymbolTable.resolve names correction).map fun code => (name, code)

theorem mem_corrected {names : List (String × Nat)} {name : String} {code : Nat} :
    (name, code) ∈ corrected names ↔
      ∃ correction, (name, correction) ∈ corrections ∧ SymbolTable.resolve names correction = some code := by
  simp only [corrected, List.mem_filterMap, Option.map_eq_some_iff, Prod.mk.injEq, Prod.exists]
  constructor
  · rintro ⟨_, correction, mem, _, resolved, rfl, rfl⟩
    exact ⟨correction, mem, resolved⟩
  · rintro ⟨correction, mem, resolved⟩
    exact ⟨name, correction, mem, code, resolved, rfl, rfl⟩

theorem lookup_corrected {names : List (String × Nat)} {name : String} {code : Nat} :
    (corrected names).lookup name = some code ↔
      ∃ correction, (name, correction) ∈ corrections ∧ SymbolTable.resolve names correction = some code := by
  rw [← mem_corrected]
  constructor
  · exact mem_of_lookup
  · intro mem
    apply lookup_of_mem _ mem
    intro other mem'
    obtain ⟨correction, found, resolved⟩ := mem_corrected.mp mem
    obtain ⟨correction', found', resolved'⟩ := mem_corrected.mp mem'
    rw [correction_unique found' found, resolved] at resolved'
    exact (Option.some.inj resolved').symm

theorem lookup_filter {α β : Type} [BEq α] [LawfulBEq α] (keep : α → Bool) (key : α)
    (entries : List (α × β)) :
    (entries.filter fun entry => keep entry.1).lookup key = if keep key then entries.lookup key else none := by
  induction entries with
  | nil => simp
  | cons entry rest ih =>
    obtain ⟨name, value⟩ := entry
    by_cases same : key = name
    · subst same
      by_cases kept : keep key <;> simp [kept, ih]
    · have other : (key == name) = false := beq_false_of_ne same
      by_cases kept : keep name <;> simp [kept, ih, List.lookup_cons, other]

theorem codePoint?_ofText (text name : String) :
    (SymbolTable.ofText text).codePoint? name =
      if name = accentCommand then none
      else ((corrected (SymbolTable.listed (SymbolRecord.ofText text))).lookup name).or
        ((SymbolTable.listed (SymbolRecord.ofText text)).lookup name) := by
  have entries : (SymbolTable.ofText text).entries =
      (corrected (SymbolTable.listed (SymbolRecord.ofText text)) ++
        SymbolTable.listed (SymbolRecord.ofText text)).filter fun entry => entry.1 ≠ accentCommand := rfl
  rw [SymbolTable.codePoint?, entries, lookup_filter (fun name => decide (name ≠ accentCommand)),
    List.lookup_append]
  by_cases accent : name = accentCommand <;> simp [accent]

theorem gives_iff {text name : String} {code : Nat} :
    ((corrected (SymbolTable.listed (SymbolRecord.ofText text))).lookup name).or
        ((SymbolTable.listed (SymbolRecord.ofText text)).lookup name) = some code ↔ Gives text name code := by
  rw [Option.or_eq_some_iff, lookup_corrected, lookup_listed, Option.eq_none_iff_forall_ne_some]
  simp only [ne_eq, lookup_corrected]
  constructor
  · rintro (⟨_ | target, mem, resolved⟩ | ⟨uncorrected, first⟩)
    · obtain rfl := Option.some.inj resolved
      exact .fixed mem
    · exact .alias mem (lookup_listed.mp resolved)
    · refine .listed (fun number mem => ?_) (fun target mem number found => ?_) first
      · exact uncorrected number ⟨_, mem, rfl⟩
      · exact uncorrected number ⟨_, mem, lookup_listed.mpr found⟩
  · rintro (mem | ⟨mem, first⟩ | ⟨unfixed, unresolved, first⟩)
    · exact .inl ⟨_, mem, rfl⟩
    · exact .inl ⟨_, mem, lookup_listed.mpr first⟩
    · refine .inr ⟨?_, first⟩
      rintro number ⟨_ | target, mem, resolved⟩
      · exact unfixed _ mem
      · exact unresolved target mem number (lookup_listed.mp resolved)

/-! ## Lines that say nothing -/

/-- A line has the form of a record. -/
def WellFormed (line : List Char) : Prop :=
  ∃ code names comments, IsRecord line code names comments

theorem wellFormed_iff {line : List Char} : (SymbolRecord.ofLine? line).isSome ↔ WellFormed line := by
  constructor
  · intro some
    obtain ⟨record, found⟩ := Option.isSome_iff_exists.mp some
    obtain ⟨code, names, comments, form, -⟩ := exists_isRecord found
    exact ⟨code, names, comments, form⟩
  · rintro ⟨code, names, comments, form⟩
    rw [form.ofLine?, Option.isSome_some]

instance : DecidablePred WellFormed :=
  fun _ => decidable_of_iff _ wellFormed_iff

theorem ofText_wellFormed (text : String) :
    SymbolRecord.ofText text = ((lines text.toList).filter (WellFormed ·)).filterMap SymbolRecord.ofLine? := by
  rw [SymbolRecord.ofText, linesOf_eq]
  induction lines text.toList with
  | nil => rfl
  | cons line rest ih =>
    cases found : SymbolRecord.ofLine? line with
    | none =>
      have : ¬ WellFormed line := by
        rw [← wellFormed_iff, found]
        decide
      rw [List.filterMap_cons_none found, List.filter_cons_of_neg (by simpa using this), ih]
    | some record =>
      have : WellFormed line := by
        rw [← wellFormed_iff, found]
        rfl
      rw [List.filterMap_cons_some found, List.filter_cons_of_pos (by simpa using this), ih,
        List.filterMap_cons_some found]

/-! ## The number of names -/

theorem nodup_eraseDups {α : Type} [BEq α] [LawfulBEq α] (as : List α) : as.eraseDups.Nodup := by
  induction count : as.length using Nat.strong_induction_on generalizing as with
  | _ count ih =>
    cases as with
    | nil => simp
    | cons a as =>
      rw [List.eraseDups_cons, List.nodup_cons]
      constructor
      · simp [List.mem_eraseDups]
      · apply ih _ _ _ rfl
        rw [← count, List.length_cons]
        exact Nat.lt_succ_of_le (List.length_filter_le _ _)

theorem size_eq (table : SymbolTable) :
    Set.encard {name | (table.codePoint? name).isSome} = table.size := by
  have names : {name | (table.codePoint? name).isSome} =
      ((table.entries.map Prod.fst).eraseDups.toFinset : Set String) := by
    ext name
    rw [List.coe_toFinset, Set.mem_ofPred_eq, Set.mem_ofPred_eq, List.mem_eraseDups, SymbolTable.codePoint?,
      List.lookup_isSome_iff]
    simp
  rw [names, Set.encard_coe_eq_coe_finsetCard, List.toFinset_card_of_nodup (nodup_eraseDups _)]
  rfl

/-! ## Tables -/

/-- A table is exactly what its text says. A name has the code that the corrections fix for it, or that the
text lists first for the name it is another name of, or that the text lists first for the name itself, and
the accent command has none. Lines without the form of a record change nothing, and the size is the number
of the names that have a code. -/
theorem table_of_text (text : String) :
    (∀ name code, (SymbolTable.ofText text).codePoint? name = some code ↔
      name ≠ accentCommand ∧ Gives text name code) ∧
    (∀ other : String, (lines other.toList).filter (WellFormed ·) = (lines text.toList).filter (WellFormed ·) →
      SymbolTable.ofText other = SymbolTable.ofText text) ∧
    Set.encard {name | ∃ code, (SymbolTable.ofText text).codePoint? name = some code} =
      (SymbolTable.ofText text).size := by
  refine ⟨fun name code => ?_, fun other same => ?_, ?_⟩
  · rw [codePoint?_ofText, ← gives_iff]
    by_cases accent : name = accentCommand <;> simp [accent]
  · rw [SymbolTable.ofText, SymbolTable.ofText, ofText_wellFormed, same, ← ofText_wellFormed]
  · rw [← size_eq]
    congr 1
    ext name
    exact Option.isSome_iff_exists.symm

/-- A comment and a line with a bad code are passed over. -/
theorem table_of_text_comments : SymbolTable.ofText "#1^a^^^\nxyz^a^^^\n22EF^a^\\cdots^\\dotsb^\r\n" =
    SymbolTable.ofText "22EF^a^\\cdots^\\dotsb^" :=
  (table_of_text "22EF^a^\\cdots^\\dotsb^").2.1 _ (by decide +kernel)

-- the name has a line of its own, but its correction refers to the other one
example : (SymbolTable.ofText "22EF^a^\\cdots^^\n41^a^\\dotsb^^= \\A").codePoint? "\\dotsb" = some 0x22EF := by
  decide +kernel

end FormulaMarkup.SymbolFile

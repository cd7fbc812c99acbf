import FormulaMarkup.Proofs.Bytes.Slice
import FormulaMarkup.Symbol.Table

/-!
Symbol files by places. The commands that the last field of a record refers to are slices of the
field, found by the places of markers and of the characters that end a name; the names of a record
are the first three of its fields. None of these operations fails, whatever the file holds. Main
statement: `symbolTable?_eq`.
-/
namespace FormulaMarkup.Bytes

open Source (byteLength byteLength_append byteLength_cons byteLength_nil byteLength_pos)

/-! ## Records -/

/-- The place of the first character that passes a test. -/
def find? (test : Char → Bool) (text : List Char) : Option Nat :=
  if text.any test then some (byteLength (text.takeWhile (! test ·))) else none

def isMarker (c : Char) : Bool := c = '=' ∨ c = '#'

def endsName (c : Char) : Bool := c = ',' ∨ c = '^' ∨ c = ' '

/-- The command that a cross reference names, given the place of its marker. -/
def referenceAt? (comments : List Char) (marker : Nat) : Option (Option (List Char)) := do
  let behind ← sliceFrom? comments (marker + 1)
  let rest := behind.dropWhile SymbolRecord.isUnicodeSpace
  if rest.head? = some '\\' then
    let name ← sliceFrom? rest 1
    let stop := match find? endsName name with
      | some place => place + 1
      | none => byteLength rest
    if 1 < stop then return some (← slice? rest 0 stop) else return none
  else return none

def references? (comments : List Char) : Option (List (List Char)) := do
  let found ← (places isMarker 0 comments).mapM (referenceAt? comments)
  return found.filterMap id

/-- The record that a line gives, if it gives one. -/
def record? (line : List Char) : Option (Option SymbolRecord) :=
  if line.head? = some '#' then some none
  else
    match SymbolRecord.fieldsOf (SymbolRecord.trimSpaces line) with
    | code :: next :: further => do
      let fields := next :: further
      let names := fields.dropLast
      if names.length < 3 then return none
      else
        match SymbolRecord.code? code, fields.getLast? with
        | some code, some comments =>
          let listed ← take? names 3
          let references ← references? comments
          return some ⟨code, (listed.filter (! ·.isEmpty) ++ references).map String.ofList⟩
        | _, _ => return none
    | _ => return none

def symbolTable? (text : String) : Option SymbolTable := do
  let records ← (SymbolRecord.linesOf text.toList).mapM record?
  return SymbolTable.ofRecords (records.filterMap id)

/-! ## References -/

theorem not_endsName (c : Char) : (! endsName c) = decide (c ≠ ',' ∧ c ≠ '^' ∧ c ≠ ' ') := by
  simp [endsName]

/- A name ends at the first character that ends names, or with the field. -/
theorem nameEnd_eq (cs : List Char) :
    (match find? endsName cs with
      | some place => place + 1
      | none => byteLength ('\\' :: cs)) = byteLength ('\\' :: cs.takeWhile (! endsName ·)) := by
  have size : '\\'.utf8Size = 1 := rfl
  unfold find?
  split
  · rename_i place found
    split at found
    · rw [← Option.some.inj found, byteLength_cons, size, Nat.add_comm]
    · contradiction
  · rename_i none
    split at none
    · contradiction
    · rename_i open_end
      have whole : cs.takeWhile (! endsName ·) = cs := by
        rw [List.takeWhile_eq_self_iff]
        simpa using open_end
      rw [whole]

theorem referenceAt?_eq {before behind : List Char} {marker : Char} (size : marker.utf8Size = 1) :
    referenceAt? (before ++ marker :: behind) (byteLength before) =
      some (SymbolRecord.reference? behind) := by
  have split : before ++ marker :: behind = (before ++ [marker]) ++ behind := by simp
  have along : byteLength before + 1 = byteLength (before ++ [marker]) := by
    rw [byteLength_append, byteLength_cons, byteLength_nil, size]
  have ends : (fun c => ! endsName c) = fun c => decide (c ≠ ',' ∧ c ≠ '^' ∧ c ≠ ' ') :=
    funext not_endsName
  unfold referenceAt? SymbolRecord.reference?
  rw [split, along, sliceFrom?_append]
  dsimp only [Option.bind_eq_bind, Option.bind_some]
  cases behind.dropWhile SymbolRecord.isUnicodeSpace with
  | nil => rfl
  | cons c cs =>
    by_cases command : c = '\\'
    · subst command
      have name : sliceFrom? ('\\' :: cs) 1 = some cs := sliceFrom?_append ['\\'] cs
      rw [List.head?_cons, if_pos rfl, name]
      dsimp only [Option.bind_some]
      rw [nameEnd_eq, ← ends]
      have left := @List.takeWhile_append_dropWhile Char (! endsName ·) cs
      cases taken : cs.takeWhile (! endsName ·) with
      | nil =>
        simp only [taken]
        rfl
      | cons d ds =>
        have some := byteLength_pos (List.cons_ne_nil d ds)
        have inside := slice?_append [] ('\\' :: d :: ds) (cs.dropWhile (! endsName ·))
        rw [taken] at left
        rw [List.nil_append, List.cons_append, left] at inside
        have long : 1 < byteLength ('\\' :: d :: ds) := by
          have size : '\\'.utf8Size = 1 := rfl
          rw [byteLength_cons, size]
          omega
        rw [if_pos long]
        change (slice? ('\\' :: cs) (byteLength []) _).bind _ = _
        rw [inside]
        simp only [taken]
        rfl
    · rw [List.head?_cons, if_neg (fun same => command (Option.some.inj same))]
      split
      · rename_i same
        exact absurd (List.cons.inj same).1 command
      · rfl

theorem marker_size {c : Char} (marker : isMarker c) : c.utf8Size = 1 := by
  rw [isMarker, decide_eq_true_eq] at marker
  rcases marker with rfl | rfl <;> rfl

/- The markers in what is left of a field refer to the commands that the rest refers to. -/
theorem referencesFrom_eq (before rest : List Char) :
    ∃ found, (places isMarker (byteLength before) rest).mapM (referenceAt? (before ++ rest)) = some found ∧
      found.filterMap id = SymbolRecord.crossReferences rest := by
  induction rest generalizing before with
  | nil => exact ⟨[], rfl, rfl⟩
  | cons c cs ih =>
    obtain ⟨found, along, all⟩ := ih (before ++ [c])
    rw [byteLength_append, byteLength_cons, byteLength_nil, Nat.add_zero, List.append_assoc,
      List.singleton_append] at along
    rw [places, SymbolRecord.crossReferences]
    by_cases marker : isMarker c
    · have listed : c = '=' ∨ c = '#' := by simpa [isMarker] using marker
      exists SymbolRecord.reference? cs :: found
      constructor
      · rw [if_pos marker, List.mapM_cons, referenceAt?_eq (marker_size marker), along]
        rfl
      · rw [if_pos listed, ← all]
        cases SymbolRecord.reference? cs with
        | none => rfl
        | some name => rfl
    · have other : ¬ (c = '=' ∨ c = '#') := by simpa [isMarker] using marker
      exists found
      constructor
      · rw [if_neg marker, along]
      · rw [if_neg other, all]

theorem references?_eq (comments : List Char) :
    references? comments = some (SymbolRecord.crossReferences comments) := by
  obtain ⟨found, along, all⟩ := referencesFrom_eq [] comments
  rw [List.nil_append, byteLength_nil] at along
  rw [references?, along, ← all]
  rfl

/-! ## Files -/

theorem record?_eq (line : List Char) : record? line = some (SymbolRecord.ofLine? line) := by
  unfold record? SymbolRecord.ofLine?
  split
  · rfl
  · rcases SymbolRecord.fieldsOf (SymbolRecord.trimSpaces line) with
      _ | ⟨code, _ | ⟨first, _ | ⟨second, _ | ⟨third, _ | ⟨fourth, further⟩⟩⟩⟩⟩
    · rfl
    · rfl
    · rfl
    · rfl
    · rfl
    · have enough : ¬ (first :: second :: third :: (fourth :: further).dropLast).length < 3 := by
        simp only [List.length_cons]
        omega
      have three : take? (first :: second :: third :: (fourth :: further).dropLast) 3 =
          some [first, second, third] := by
        rw [take?, if_pos (Nat.le_of_not_lt enough)]
        rfl
      have last : (first :: second :: third :: fourth :: further).getLast? =
          (fourth :: further).getLast? := by simp
      cases comments : (fourth :: further).getLast? with
      | none => simp at comments
      | some comments =>
        change (if (first :: second :: third :: (fourth :: further).dropLast).length < 3 then _ else _) = _
        rw [if_neg enough, last, comments]
        cases number : SymbolRecord.code? code with
        | none =>
          simp only [comments, number]
          rfl
        | some number =>
          change (take? (first :: second :: third :: (fourth :: further).dropLast) 3).bind _ = _
          rw [three, Option.bind_some, references?_eq]
          simp only [comments, number]
          rfl

theorem symbolTable?_eq (text : String) : symbolTable? text = some (SymbolTable.ofText text) := by
  have all (lines : List (List Char)) : lines.mapM record? = some (lines.map SymbolRecord.ofLine?) := by
    rw [funext record?_eq]
    exact List.mapM_pure
  rw [symbolTable?, all]
  change some (SymbolTable.ofRecords _) = _
  rw [List.filterMap_map]
  rfl

end FormulaMarkup.Bytes

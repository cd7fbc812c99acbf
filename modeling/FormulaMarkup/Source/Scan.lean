/-!
Scanners over the characters of one line. A scanner looks at the start of a list of characters and
gives what it takes with what it leaves, or nothing. Blanks, digits and letters are ASCII. What is
taken and what is left together are always the list that was given, as the lemmas here state.
-/
namespace FormulaMarkup.Scan

def isBlank (c : Char) : Bool :=
  c = ' ' ∨ c = '\t' ∨ c = '\n' ∨ c = '\x0c' ∨ c = '\r'

/-- A whole number, which may go on with a point and further digits. -/
def number? (cs : List Char) : Option (List Char × List Char) :=
  let whole := cs.takeWhile Char.isDigit
  let behind := cs.dropWhile Char.isDigit
  if whole.isEmpty then none
  else
    match behind with
    | '.' :: fraction =>
      if (fraction.takeWhile Char.isDigit).isEmpty then some (whole, behind)
      else some (whole ++ '.' :: fraction.takeWhile Char.isDigit, fraction.dropWhile Char.isDigit)
    | _ => some (whole, behind)

def units : List (Char × Char) :=
  [('i', 'n'), ('m', 'm'), ('c', 'm'), ('p', 't'), ('e', 'm'), ('e', 'x'), ('p', 'c'), ('b', 'p'),
   ('d', 'd'), ('c', 'c'), ('s', 'p'), ('m', 'u')]

/-- A number with a unit, and blanks between the two. -/
def quantity? (cs : List Char) : Option (List Char × List Char) :=
  match number? cs with
  | none => none
  | some (number, behind) =>
    match behind.dropWhile isBlank with
    | a :: b :: rest =>
      if units.contains (a, b) then some (number ++ behind.takeWhile isBlank ++ [a, b], rest) else none
    | _ => none

/-- A length: a number with a unit, which may be negative. -/
def dimension? : List Char → Option (List Char × List Char)
  | '-' :: cs => (quantity? cs).map fun (taken, rest) => ('-' :: taken, rest)
  | cs => quantity? cs

/-- Characters of a class in braces, with blanks in front of them; at least one. -/
def braced? (p : Char → Bool) (cs : List Char) : Option (List Char × List Char) :=
  match cs.dropWhile isBlank with
  | '\x7b' :: inner =>
    let content := inner.takeWhile p
    match inner.dropWhile p with
    | '\x7d' :: rest =>
      if content.isEmpty then none
      else some (cs.takeWhile isBlank ++ '\x7b' :: content ++ ['\x7d'], rest)
    | _ => none
  | _ => none

/-- The name of an environment in braces: letters, and one star behind them. -/
def environmentName? (cs : List Char) : Option (List Char × List Char) :=
  match cs.dropWhile isBlank with
  | '\x7b' :: inner =>
    let name := inner.takeWhile Char.isAlpha
    if name.isEmpty then none
    else
      match inner.dropWhile Char.isAlpha with
      | '\x7d' :: rest => some (cs.takeWhile isBlank ++ '\x7b' :: name ++ ['\x7d'], rest)
      | '*' :: '\x7d' :: rest => some (cs.takeWhile isBlank ++ '\x7b' :: name ++ ['*', '\x7d'], rest)
      | _ => none
  | _ => none

/-- The name of an operator in braces: letters, stars and blanks. -/
def operatorName? : List Char → Option (List Char × List Char) :=
  braced? fun c => c.isAlpha || isBlank c || c == '*'

/-- A command: a backslash and the letters behind it. -/
def command? : List Char → Option (List Char × List Char)
  | '\\' :: cs =>
    if (cs.takeWhile Char.isAlpha).isEmpty then none
    else some (cs.takeWhile Char.isAlpha, cs.dropWhile Char.isAlpha)
  | _ => none

theorem append_of_number? {cs taken rest : List Char} (h : number? cs = some (taken, rest)) :
    taken ++ rest = cs := by
  have split := @List.takeWhile_append_dropWhile Char Char.isDigit cs
  simp only [number?] at h
  split at h
  · simp at h
  · split at h
    · rename_i fraction same
      split at h
      · obtain ⟨rfl, rfl⟩ := by simpa using h
        exact split
      · obtain ⟨rfl, rfl⟩ := by simpa using h
        rw [same, ← @List.takeWhile_append_dropWhile Char Char.isDigit fraction] at split
        simpa using split
    · obtain ⟨rfl, rfl⟩ := by simpa using h
      exact split

theorem append_of_quantity? {cs taken rest : List Char} (h : quantity? cs = some (taken, rest)) :
    taken ++ rest = cs := by
  simp only [quantity?] at h
  split at h
  · simp at h
  · rename_i number behind found
    have whole := append_of_number? found
    have split := @List.takeWhile_append_dropWhile Char isBlank behind
    split at h
    · rename_i a b tail same
      split at h
      · obtain ⟨rfl, rfl⟩ := by simpa using h
        rw [same] at split
        rw [← whole]
        simpa using split
      · simp at h
    · simp at h

theorem append_of_dimension? {cs taken rest : List Char} (h : dimension? cs = some (taken, rest)) :
    taken ++ rest = cs := by
  unfold dimension? at h
  split at h
  · rename_i tail
    obtain ⟨⟨read, left⟩, found, same⟩ := Option.map_eq_some_iff.1 h
    obtain ⟨rfl, rfl⟩ := by simpa using same
    simp [append_of_quantity? found]
  · exact append_of_quantity? h

theorem append_of_braced? {p : Char → Bool} {cs taken rest : List Char}
    (h : braced? p cs = some (taken, rest)) : taken ++ rest = cs := by
  have split := @List.takeWhile_append_dropWhile Char isBlank cs
  simp only [braced?] at h
  split at h
  · rename_i inner opened
    have inside := @List.takeWhile_append_dropWhile Char p inner
    split at h
    · rename_i tail closed
      split at h
      · simp at h
      · obtain ⟨rfl, rfl⟩ := by simpa using h
        rw [closed] at inside
        rw [opened, ← inside] at split
        simpa using split
    · simp at h
  · simp at h

theorem append_of_environmentName? {cs taken rest : List Char}
    (h : environmentName? cs = some (taken, rest)) : taken ++ rest = cs := by
  have split := @List.takeWhile_append_dropWhile Char isBlank cs
  simp only [environmentName?] at h
  split at h
  · rename_i inner opened
    have inside := @List.takeWhile_append_dropWhile Char Char.isAlpha inner
    split at h
    · simp at h
    · split at h
      · rename_i tail closed
        obtain ⟨rfl, rfl⟩ := by simpa using h
        rw [closed] at inside
        rw [opened, ← inside] at split
        simpa using split
      · rename_i tail closed
        obtain ⟨rfl, rfl⟩ := by simpa using h
        rw [closed] at inside
        rw [opened, ← inside] at split
        simpa using split
      · simp at h
  · simp at h

theorem append_of_command? {cs name rest : List Char} (h : command? cs = some (name, rest)) :
    '\\' :: name ++ rest = cs := by
  unfold command? at h
  split at h
  · rename_i tail
    split at h
    · simp at h
    · obtain ⟨rfl, rfl⟩ := by simpa using h
      simp
  · simp at h

theorem length_of_number? {cs taken rest : List Char} (h : number? cs = some (taken, rest)) :
    rest.length < cs.length := by
  have whole := append_of_number? h
  have taken_ne : taken ≠ [] := by
    simp only [number?] at h
    split at h
    · simp at h
    · rename_i some_digit
      split at h
      · split at h
        · obtain ⟨rfl, rfl⟩ := by simpa using h
          simpa using some_digit
        · obtain ⟨rfl, rfl⟩ := by simpa using h
          simp
      · obtain ⟨rfl, rfl⟩ := by simpa using h
        simpa using some_digit
  have := List.length_pos_iff.2 taken_ne
  rw [← whole, List.length_append]
  omega

theorem length_of_quantity? {cs taken rest : List Char} (h : quantity? cs = some (taken, rest)) :
    rest.length < cs.length := by
  have whole := append_of_quantity? h
  simp only [quantity?] at h
  split at h
  · simp at h
  · split at h
    · split at h
      · obtain ⟨rfl, rfl⟩ := by simpa using h
        rw [← whole]
        simp
        omega
      · simp at h
    · simp at h

theorem length_of_dimension? {cs taken rest : List Char} (h : dimension? cs = some (taken, rest)) :
    rest.length < cs.length := by
  unfold dimension? at h
  split at h
  · obtain ⟨⟨read, left⟩, found, same⟩ := Option.map_eq_some_iff.1 h
    obtain ⟨rfl, rfl⟩ := by simpa using same
    have := length_of_quantity? found
    simp
    omega
  · exact length_of_quantity? h

end FormulaMarkup.Scan

import FormulaMarkup.Source.Scan
import FormulaMarkup.Symbol.Table

/-!
Lexemes. What stands at a place of a line is read by the first rule that applies there, which need
not be the one that reads most: `2in` is a length, while `2i` is a number and a letter. A rule gives
segments, each of them a token or skipped, and leaves the rest of the line. Main statement: the
segments that a lexeme reads and the rest that it leaves are the line, and the rest is shorter.
-/
namespace FormulaMarkup

/-- A stretch of source that is read as one token with the given text, or skipped. -/
structure Segment where
  source : List Char
  text : Option (List Char)
  deriving Repr, DecidableEq

namespace Segment

def token (source : List Char) : Segment := ⟨source, some source⟩

/-- A token that reads as it is written but for its blanks. -/
def withoutBlanks (source : List Char) : Segment :=
  ⟨source, some (source.filter (! Scan.isBlank ·))⟩

def gap (source : List Char) : Segment := ⟨source, none⟩

def sourceOf (segments : List Segment) : List Char := segments.flatMap source

end Segment

/-- What a lexeme is read as, and what it leaves of the line. -/
structure Reading where
  segments : List Segment
  rest : List Char
  deriving Repr

namespace Reading

/-- A reading keeps its line: its segments and its rest are the line, and the rest is shorter. -/
def Of (line : List Char) (r : Reading) : Prop :=
  Segment.sourceOf r.segments ++ r.rest = line ∧ r.rest.length < line.length

end Reading

namespace Lexeme

open Segment

/-- The characters that a backslash makes a token of two characters with. -/
def escapable : List Char := "\\[]\x7b\x7d!,:>;|_%#$&".toList

/-- The commands whose argument in braces is raw text. -/
def textCommands : List String := [
  "color", "fbox", "hbox", "href", "mbox", "style", "text", "textbf", "textit", "textrm", "textsf",
  "texttt"]

/-- The commands whose arguments may be single characters without braces. -/
def shortFractions : List String := ["frac", "cfrac", "dfrac", "tfrac"]

/-- Whether a character can be an argument without braces: a digit or a point. -/
def isShortArgument (c : Char) : Bool := c.isDigit || c == '.'

def dimension? (line : List Char) : Option Reading :=
  (Scan.dimension? line).map fun (taken, rest) => ⟨[withoutBlanks taken], rest⟩

/-- A comment, which goes on to the end of the line. -/
def comment? : List Char → Option Reading
  | '%' :: rest => some ⟨[gap ('%' :: rest)], []⟩
  | _ => none

def scriptDigit? : List Char → Option Reading
  | mark :: digit :: rest =>
    if (mark = '_' ∨ mark = '^') ∧ digit.isDigit then some ⟨[token [mark], token [digit]], rest⟩
    else none
  | _ => none

def number? (line : List Char) : Option Reading :=
  (Scan.number? line).map fun (taken, rest) => ⟨[token taken], rest⟩

/-- A point with the digits behind it, if there are any. -/
def point? : List Char → Option Reading
  | '.' :: cs => some ⟨[token ('.' :: cs.takeWhile Char.isDigit)], cs.dropWhile Char.isDigit⟩
  | _ => none

/-- A backslash with a character that it escapes, or with a blank. -/
def escaped? : List Char → Option Reading
  | '\\' :: c :: rest =>
    if escapable.contains c || Scan.isBlank c then some ⟨[token ['\\', c]], rest⟩ else none
  | _ => none

/-- The start or the end of an environment with its name. -/
def environmentHeader? (line : List Char) : Option Reading :=
  match Scan.command? line with
  | none => none
  | some (name, behind) =>
    if String.ofList name = "begin" ∨ String.ofList name = "end" then
      (Scan.environmentName? behind).map fun (taken, rest) =>
        ⟨[withoutBlanks ('\\' :: name ++ taken)], rest⟩
    else none

def operatorName? (line : List Char) : Option Reading :=
  match Scan.command? line with
  | none => none
  | some (name, behind) =>
    if String.ofList name = "operatorname" then
      (Scan.operatorName? behind).map fun (taken, rest) =>
        ⟨[withoutBlanks ('\\' :: name ++ taken)], rest⟩
    else none

/-- A text command with its argument, which ends at the first closing brace. When the argument is
empty the command is skipped together with it. -/
def rawArgument? (line : List Char) : Option Reading :=
  match Scan.command? line with
  | none => none
  | some (name, behind) =>
    if textCommands.contains (String.ofList name) then
      match behind.dropWhile Scan.isBlank with
      | '\x7b' :: inner =>
        let content := inner.takeWhile (· ≠ '\x7d')
        let opening := behind.takeWhile Scan.isBlank ++ ['\x7b']
        match inner.dropWhile (· ≠ '\x7d') with
        | closing :: rest =>
          if content.isEmpty then some ⟨[gap ('\\' :: name ++ opening ++ [closing])], rest⟩
          else
            some ⟨[token ('\\' :: name), gap opening, token content, gap [closing]], rest⟩
        | [] => none
      | _ => none
    else none

/-- A fraction with one or two arguments that are single characters. -/
def shortFraction? (line : List Char) : Option Reading :=
  match Scan.command? line with
  | none => none
  | some (name, behind) =>
    if shortFractions.contains (String.ofList name) then
      match behind.dropWhile Scan.isBlank with
      | upper :: between =>
        if isShortArgument upper then
          let first := [token ('\\' :: name), gap (behind.takeWhile Scan.isBlank), token [upper]]
          match between.dropWhile Scan.isBlank with
          | under :: rest =>
            if isShortArgument under then
              some ⟨first ++ [gap (between.takeWhile Scan.isBlank), token [under]], rest⟩
            else some ⟨first, between⟩
          | [] => some ⟨first, between⟩
        else none
      | [] => none
    else none

/-- Any other command. As the first lexeme of a line a command `\math…` that is a symbol reads as
the character of that symbol. -/
def command? (symbols : SymbolTable) (first : Bool) (line : List Char) : Option Reading :=
  match Scan.command? line with
  | none => none
  | some (name, rest) =>
    let command := '\\' :: name
    let symbol :=
      if first && "math".toList.isPrefixOf name then symbols.character? (String.ofList command)
      else none
    match symbol with
    | some c => some ⟨[⟨command, some [c]⟩], rest⟩
    | none => some ⟨[token command], rest⟩

/-- The rules, in the order in which they are tried. -/
def rules (symbols : SymbolTable) (first : Bool) : List (List Char → Option Reading) :=
  [dimension?, comment?, scriptDigit?, number?, point?, escaped?, environmentHeader?, operatorName?,
    rawArgument?, shortFraction?, command? symbols first]

/-- Reads the lexeme at the start of a line; a character that no rule takes is a token. -/
def read (symbols : SymbolTable) (first : Bool) (c : Char) (cs : List Char) : Reading :=
  ((rules symbols first).findSome? fun rule => rule (c :: cs)).getD ⟨[token [c]], cs⟩

theorem of_dimension? {line : List Char} {r : Reading} (h : dimension? line = some r) : r.Of line := by
  obtain ⟨⟨taken, rest⟩, found, rfl⟩ := Option.map_eq_some_iff.1 h
  refine ⟨?_, Scan.length_of_dimension? found⟩
  simp [sourceOf, withoutBlanks, Scan.append_of_dimension? found]

theorem of_comment? {line : List Char} {r : Reading} (h : comment? line = some r) : r.Of line := by
  unfold comment? at h
  split at h
  · obtain rfl := by simpa using h
    simp [Reading.Of, sourceOf, gap]
  · simp at h

theorem of_scriptDigit? {line : List Char} {r : Reading} (h : scriptDigit? line = some r) :
    r.Of line := by
  unfold scriptDigit? at h
  split at h
  · split at h
    · obtain rfl := by simpa using h
      refine ⟨by simp [sourceOf, token], ?_⟩
      simp only [List.length_cons]
      omega
    · simp at h
  · simp at h

theorem of_number? {line : List Char} {r : Reading} (h : number? line = some r) : r.Of line := by
  obtain ⟨⟨taken, rest⟩, found, rfl⟩ := Option.map_eq_some_iff.1 h
  refine ⟨?_, Scan.length_of_number? found⟩
  simp [sourceOf, token, Scan.append_of_number? found]

theorem of_point? {line : List Char} {r : Reading} (h : point? line = some r) : r.Of line := by
  unfold point? at h
  split at h
  · rename_i cs
    obtain rfl := by simpa using h
    refine ⟨by simp [sourceOf, token], ?_⟩
    exact Nat.lt_succ_of_le (List.dropWhile_suffix Char.isDigit).length_le
  · simp at h

theorem of_escaped? {line : List Char} {r : Reading} (h : escaped? line = some r) : r.Of line := by
  unfold escaped? at h
  split at h
  · split at h
    · obtain rfl := by simpa using h
      refine ⟨by simp [sourceOf, token], ?_⟩
      simp only [List.length_cons]
      omega
    · simp at h
  · simp at h

theorem of_environmentHeader? {line : List Char} {r : Reading} (h : environmentHeader? line = some r) :
    r.Of line := by
  unfold environmentHeader? at h
  split at h
  · simp at h
  · rename_i name behind command
    split at h
    · obtain ⟨⟨taken, rest⟩, found, rfl⟩ := Option.map_eq_some_iff.1 h
      rw [← Scan.append_of_command? command, ← Scan.append_of_environmentName? found]
      simp [Reading.Of, sourceOf, withoutBlanks]
      omega
    · simp at h

theorem of_operatorName? {line : List Char} {r : Reading} (h : operatorName? line = some r) :
    r.Of line := by
  unfold operatorName? at h
  split at h
  · simp at h
  · rename_i name behind command
    split at h
    · obtain ⟨⟨taken, rest⟩, found, rfl⟩ := Option.map_eq_some_iff.1 h
      rw [← Scan.append_of_command? command, ← Scan.append_of_braced? found]
      simp [Reading.Of, sourceOf, withoutBlanks]
      omega
    · simp at h

theorem of_rawArgument? {line : List Char} {r : Reading} (h : rawArgument? line = some r) :
    r.Of line := by
  unfold rawArgument? at h
  split at h
  · simp at h
  · rename_i name behind command
    split at h
    · split at h
      · rename_i inner opened
        simp only at h
        split at h
        · rename_i closing rest closed
          have before := @List.takeWhile_append_dropWhile Char Scan.isBlank behind
          have inside := @List.takeWhile_append_dropWhile Char (· ≠ '\x7d') inner
          rw [closed] at inside
          rw [opened] at before
          rw [← Scan.append_of_command? command]
          have lengths := congrArg List.length before
          have inner_lengths := congrArg List.length inside
          simp at lengths inner_lengths
          split at h
          · rename_i nothing
            obtain rfl := by simpa using h
            refine ⟨?_, by simp; omega⟩
            rw [List.isEmpty_iff] at nothing
            rw [nothing] at inside
            rw [← inside] at before
            simpa [sourceOf, gap] using before
          · obtain rfl := by simpa using h
            refine ⟨?_, by simp; omega⟩
            rw [← inside] at before
            simpa [sourceOf, gap, token] using before
        · simp at h
      · simp at h
    · simp at h

theorem of_shortFraction? {line : List Char} {r : Reading} (h : shortFraction? line = some r) :
    r.Of line := by
  unfold shortFraction? at h
  split at h
  · simp at h
  · rename_i name behind command
    split at h
    · split at h
      · rename_i upper between opened
        have before := @List.takeWhile_append_dropWhile Char Scan.isBlank behind
        have inside := @List.takeWhile_append_dropWhile Char Scan.isBlank between
        rw [opened] at before
        rw [← Scan.append_of_command? command]
        have lengths := congrArg List.length before
        simp at lengths
        split at h
        · split at h
          · rename_i under rest next
            rw [next] at inside
            have inner_lengths := congrArg List.length inside
            simp at inner_lengths
            split at h
            · obtain rfl := by simpa using h
              refine ⟨?_, by simp; omega⟩
              rw [← inside] at before
              simpa [sourceOf, gap, token] using before
            · obtain rfl := by simpa using h
              exact ⟨by simpa [sourceOf, gap, token] using before, by simp; omega⟩
          · obtain rfl := by simpa using h
            exact ⟨by simpa [sourceOf, gap, token] using before, by simp; omega⟩
        · simp at h
      · simp at h
    · simp at h

theorem of_command? {symbols : SymbolTable} {first : Bool} {line : List Char} {r : Reading}
    (h : command? symbols first line = some r) : r.Of line := by
  unfold command? at h
  split at h
  · simp at h
  · rename_i name rest command
    rw [← Scan.append_of_command? command]
    simp only at h
    split at h <;>
    · obtain rfl := by simpa using h
      refine ⟨by simp [sourceOf, token], ?_⟩
      simp only [List.length_append, List.length_cons]
      omega

theorem of_rule {symbols : SymbolTable} {first : Bool} {rule : List Char → Option Reading}
    {line : List Char} {r : Reading} (listed : rule ∈ rules symbols first) (h : rule line = some r) :
    r.Of line := by
  simp only [rules, List.mem_cons, List.not_mem_nil, or_false] at listed
  rcases listed with rfl | rfl | rfl | rfl | rfl | rfl | rfl | rfl | rfl | rfl | rfl
  · exact of_dimension? h
  · exact of_comment? h
  · exact of_scriptDigit? h
  · exact of_number? h
  · exact of_point? h
  · exact of_escaped? h
  · exact of_environmentHeader? h
  · exact of_operatorName? h
  · exact of_rawArgument? h
  · exact of_shortFraction? h
  · exact of_command? h

theorem of_read (symbols : SymbolTable) (first : Bool) (c : Char) (cs : List Char) :
    (read symbols first c cs).Of (c :: cs) := by
  unfold read
  cases found : (rules symbols first).findSome? fun rule => rule (c :: cs) with
  | none => simp [Reading.Of, sourceOf, token]
  | some r =>
    obtain ⟨rule, listed, applies⟩ := List.exists_of_findSome?_eq_some found
    exact of_rule listed applies

end Lexeme

end FormulaMarkup

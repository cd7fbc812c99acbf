import FormulaMarkup.Proofs.Parsing.Moved
import FormulaMarkup.Proofs.Source.Alternatives
import FormulaMarkup.Proofs.Source.TrailingBlanks

/-!
Line ends. A carriage return in front of a line feed is a blank behind the line, which no lexeme takes but a
backslash that stands alone at the end of the line. Main statement: with carriage returns put in front of
its line feeds a source has the same texts of tokens where, and only where, no line feed follows such a
backslash, and there it is parsed alike, with errors at the moved places.
-/
namespace FormulaMarkup.Source

/-- A text with a carriage return put in front of each line feed. -/
def returned (source : List Char) : List Char :=
  source.flatMap fun c => if c = '\n' then ['\r', '\n'] else [c]

def withReturns (source : String) : String := String.ofList (returned source.toList)

/-- The number of line feeds among the first bytes of a text. -/
def feedsBefore : List Char → Nat → Nat
  | [], _ => 0
  | c :: cs, place =>
    if place < c.utf8Size then 0
    else (if c = '\n' then 1 else 0) + feedsBefore cs (place - c.utf8Size)

/-- Where a place of a source is when carriage returns have been put in. -/
def amongReturns (source : List Char) (place : Nat) : Nat := place + feedsBefore source place

/-- A line at the end of which a backslash stands alone, as a token. -/
def EndsInBackslash (symbols : SymbolTable) (first : Bool) (line : List Char) : Prop :=
  (lineSegments symbols first line).getLast? = some (Segment.token ['\\'])

/-- No line feed follows a backslash that stands alone. -/
def FeedsUnescaped (symbols : SymbolTable) (source : List Char) : Prop :=
  ∀ line ∈ (source.splitOn '\n').dropLast, ¬ EndsInBackslash symbols true line

instance (symbols : SymbolTable) (first : Bool) (line : List Char) :
    Decidable (EndsInBackslash symbols first line) :=
  inferInstanceAs (Decidable (_ = _))

instance (symbols : SymbolTable) (source : List Char) : Decidable (FeedsUnescaped symbols source) :=
  inferInstanceAs (Decidable (∀ line ∈ _, ¬ EndsInBackslash symbols true line))

/-! ## Blanks behind a line -/

section Line

variable {symbols : SymbolTable} {first : Bool}

theorem endsInBackslash_blank {c : Char} (blank : Scan.isBlank c) (cs : List Char) :
    EndsInBackslash symbols first (c :: cs) ↔ EndsInBackslash symbols first cs := by
  unfold EndsInBackslash
  rw [lineSegments_blank blank, List.getLast?_cons]
  cases (lineSegments symbols first cs).getLast? with
  | none => simp [Segment.gap, Segment.token]
  | some segment => rfl

/-- What a line ends in is what its first lexeme leaves ends in, if that leaves anything. -/
theorem endsInBackslash_lexeme {c : Char} {cs : List Char} (lexeme : ¬ Scan.isBlank c)
    (more : (Lexeme.read symbols first c cs).rest ≠ []) :
    EndsInBackslash symbols first (c :: cs) ↔
      EndsInBackslash symbols false (Lexeme.read symbols first c cs).rest := by
  unfold EndsInBackslash
  rw [lineSegments_lexeme lexeme, List.getLast?_append]
  cases held : (lineSegments symbols false (Lexeme.read symbols first c cs).rest).getLast? with
  | none =>
    have source := sourceOf_lineSegments symbols false (Lexeme.read symbols first c cs).rest
    rw [List.getLast?_eq_none_iff.mp held] at source
    exact absurd source.symm more
  | some segment => rfl

theorem read_comment (symbols : SymbolTable) (first : Bool) (cs : List Char) :
    Lexeme.read symbols first '%' cs = ⟨[Segment.gap ('%' :: cs)], []⟩ := rfl

theorem read_lone (symbols : SymbolTable) (first : Bool) :
    Lexeme.read symbols first '\\' [] = ⟨[Segment.token ['\\']], []⟩ := by
  cases first <;> rfl

theorem tokensFrom_blanks {tail : List Char} (blank : ∀ c ∈ tail, Scan.isBlank c) (place : Nat) :
    tokensFrom place (lineSegments symbols first tail) = [] := by
  induction tail generalizing place with
  | nil =>
    rw [lineSegments_nil]
    rfl
  | cons c cs ih =>
    rw [lineSegments_blank (blank c List.mem_cons_self)]
    exact ih (fun d listed => blank d (List.mem_cons_of_mem c listed)) _

/-- Where the last part of a lexeme is a backslash alone, that is all of it. -/
theorem single_of_last {kind : Lexeme.Alternative} {line : List Char} {r : Reading}
    (reads : Lexeme.Reads symbols first kind line r) (last : r.segments.getLast? = some (.token ['\\'])) :
    r.segments = [.token ['\\']] := by
  have apart (c : Char) (known : c.isDigit = true ∨ Lexeme.isShortArgument c = true) : c ≠ '\\' := by
    rintro rfl
    rcases known with digit | short <;> contradiction
  cases reads with
  | scriptDigit isMark isDigit => exact absurd (by simpa [Segment.token] using last) (apart _ (.inl isDigit))
  | text => simp [Segment.token, Segment.gap] at last
  | oneArgument command known blank short =>
    exact absurd (by simpa [Segment.token] using last) (apart _ (.inr short))
  | twoArguments command known blank short blank' short' =>
    exact absurd (by simpa [Segment.token] using last) (apart _ (.inr short'))
  | _ => simpa using last

/-- A lexeme that leaves nothing of a line that ends in a backslash is that backslash. -/
theorem lone_of_ends {c : Char} {cs : List Char} (lexeme : ¬ Scan.isBlank c)
    (nothing : (Lexeme.read symbols first c cs).rest = []) (ends : EndsInBackslash symbols first (c :: cs)) :
    c = '\\' ∧ cs = [] := by
  rw [EndsInBackslash, lineSegments_lexeme lexeme, nothing, lineSegments_nil, List.append_nil] at ends
  obtain ⟨kind, reads, -⟩ := Lexeme.read_eq_iff.mp (rfl (a := Lexeme.read symbols first c cs))
  have whole := (Lexeme.of_read symbols first c cs).1
  rw [single_of_last reads ends, nothing] at whole
  obtain ⟨rfl, rfl⟩ := List.cons.inj whole
  exact ⟨rfl, rfl⟩

/-- Blanks behind a line are skipped unless a backslash stands alone in front of them. -/
theorem tokensFrom_tail {tail : List Char} (blank : ∀ c ∈ tail, Scan.isBlank c) (line : List Char)
    (whole : ¬ EndsInBackslash symbols first line) (place : Nat) :
    tokensFrom place (lineSegments symbols first (line ++ tail)) =
      tokensFrom place (lineSegments symbols first line) := by
  fun_induction lineSegments symbols first line generalizing place with
  | case1 first => exact tokensFrom_blanks blank place
  | case2 first c cs space ih =>
    rw [List.cons_append, lineSegments_blank space]
    exact ih (fun ends => whole ((endsInBackslash_blank space cs).mpr ends)) _
  | case3 first c cs lexeme reading ih =>
    rw [List.cons_append, lineSegments_lexeme lexeme]
    by_cases note : c = '%'
    · subst note
      have nothing : reading.rest = [] := rfl
      rw [read_comment, nothing, lineSegments_nil]
      rfl
    · have more : c :: cs ≠ ['\\'] := by
        rintro lone
        obtain ⟨rfl, rfl⟩ := List.cons.inj lone
        apply whole
        rw [EndsInBackslash, lineSegments_lexeme lexeme, read_lone, lineSegments_nil]
        rfl
      rw [Lexeme.read_before blank symbols first note more, Reading.before, tokensFrom_append,
        tokensFrom_append]
      congr 1
      by_cases nothing : reading.rest = []
      · rw [nothing, lineSegments_nil, List.nil_append]
        exact tokensFrom_blanks blank _
      · exact ih (fun ends => whole ((endsInBackslash_lexeme lexeme nothing).mpr ends)) _

/-- A backslash that stands alone at the end of a line escapes the blank behind it. -/
theorem lineSegments_escape {b : Char} (blank : Scan.isBlank b) (line : List Char)
    (ends : EndsInBackslash symbols first line) :
    ∃ front, lineSegments symbols first line = front ++ [Segment.token ['\\']] ∧
      lineSegments symbols first (line ++ [b]) = front ++ [Segment.token ['\\', b]] := by
  have blanks : ∀ c ∈ [b], Scan.isBlank c := by simpa using blank
  fun_induction lineSegments symbols first line with
  | case1 first =>
    rw [EndsInBackslash, lineSegments_nil] at ends
    cases ends
  | case2 first c cs space ih =>
    obtain ⟨front, alone, escaped⟩ := ih ((endsInBackslash_blank space cs).mp ends)
    exists Segment.gap [c] :: front
    constructor
    · rw [alone]
      rfl
    · rw [List.cons_append, lineSegments_blank space, escaped]
      rfl
  | case3 first c cs lexeme reading ih =>
    by_cases nothing : reading.rest = []
    · obtain ⟨rfl, rfl⟩ := lone_of_ends lexeme nothing ends
      have escape : Lexeme.read symbols first '\\' [b] = ⟨[Segment.token ['\\', b]], []⟩ := by
        rw [Bytes.read_backslash]
        simp [Lexeme.escaped?, blank]
      exists []
      constructor
      · rw [nothing, lineSegments_nil]
        change (Lexeme.read symbols first '\\' []).segments ++ _ = _
        rw [read_lone]
        rfl
      · rw [List.singleton_append, lineSegments_lexeme lexeme, escape, lineSegments_nil]
        rfl
    · obtain ⟨front, alone, escaped⟩ := ih ((endsInBackslash_lexeme lexeme nothing).mp ends)
      have note : c ≠ '%' := by
        rintro rfl
        exact nothing rfl
      have more : c :: cs ≠ ['\\'] := by
        rintro lone
        obtain ⟨rfl, rfl⟩ := List.cons.inj lone
        apply nothing
        change (Lexeme.read symbols first '\\' []).rest = []
        rw [read_lone]
      exists reading.segments ++ front
      constructor
      · rw [alone, List.append_assoc]
      · rw [List.cons_append, lineSegments_lexeme lexeme, Lexeme.read_before blanks symbols first note more,
          Reading.before, escaped, List.append_assoc]

end Line

/-! ## Lines -/

/-- Lines one by one: a source is a line, or a line with a line feed and a source behind it. -/
theorem lines_induction {motive : List Char → Prop} (last : ∀ line, '\n' ∉ line → motive line)
    (more : ∀ line source, '\n' ∉ line → motive source → motive (line ++ '\n' :: source))
    (source : List Char) : motive source := by
  have joined (lines : List (List Char)) (flat : ∀ line ∈ lines, '\n' ∉ line) :
      motive (['\n'].intercalate lines) := by
    induction lines with
    | nil => exact last [] List.not_mem_nil
    | cons line lines ih =>
      obtain ⟨first, others⟩ := List.forall_mem_cons.mp flat
      cases lines with
      | nil =>
        rw [List.intercalate_singleton]
        exact last line first
      | cons next rest =>
        rw [List.intercalate_cons_cons, List.append_assoc]
        exact more line _ first (ih others)
  have whole := joined (source.splitOn '\n') fun line => not_mem_of_splitOn
  rwa [List.intercalate_splitOn] at whole

section Lines

variable {symbols : SymbolTable} {line source : List Char}

theorem feedsUnescaped_flat (flat : '\n' ∉ line) : FeedsUnescaped symbols line := by
  rw [FeedsUnescaped, splitOn_flat flat]
  exact nofun

theorem feedsUnescaped_cons (flat : '\n' ∉ line) :
    FeedsUnescaped symbols (line ++ '\n' :: source) ↔
      ¬ EndsInBackslash symbols true line ∧ FeedsUnescaped symbols source := by
  have apart : (line ++ '\n' :: source).splitOn '\n' = line.splitOn '\n' ++ source.splitOn '\n' :=
    List.splitOnP_append_cons line source (beq_self_eq_true '\n')
  have more : source.splitOn '\n' ≠ [] := List.splitOnP_ne_nil _ source
  rw [FeedsUnescaped, apart, splitOn_flat flat, List.singleton_append, List.dropLast_cons_of_ne_nil more,
    List.forall_mem_cons]
  rfl

theorem returned_flat (flat : '\n' ∉ line) : returned line = line := by
  induction line with
  | nil => rfl
  | cons c cs ih =>
    have other : c ≠ '\n' := fun same => flat (same ▸ List.mem_cons_self)
    have rest := ih fun held => flat (List.mem_cons_of_mem c held)
    rw [returned, List.flatMap_cons, if_neg other, ← returned, rest]
    rfl

theorem returned_cons (flat : '\n' ∉ line) :
    returned (line ++ '\n' :: source) = (line ++ ['\r']) ++ '\n' :: returned source := by
  have front := returned_flat flat
  rw [returned] at front
  rw [returned, List.flatMap_append, front, List.append_assoc]
  rfl

/-! ## Moved places -/

theorem feedsBefore_flat (flat : '\n' ∉ line) {place : Nat} (within : place ≤ byteLength line) :
    feedsBefore (line ++ source) place = 0 := by
  induction line generalizing place with
  | nil =>
    obtain rfl : place = 0 := by simpa using within
    cases source with
    | nil => rfl
    | cons c cs => exact if_pos c.utf8Size_pos
  | cons c cs ih =>
    have other : c ≠ '\n' := fun same => flat (same ▸ List.mem_cons_self)
    rw [byteLength_cons] at within
    rw [List.cons_append, feedsBefore, if_neg other, ih (fun held => flat (List.mem_cons_of_mem c held))
      (by omega), ite_self]

theorem feedsBefore_cons (flat : '\n' ∉ line) (place : Nat) :
    feedsBefore (line ++ '\n' :: source) (byteLength line + 1 + place) = 1 + feedsBefore source place := by
  induction line with
  | nil =>
    have feed : '\n'.utf8Size = 1 := rfl
    rw [List.nil_append, feedsBefore, byteLength_nil, feed, if_neg (by omega), if_pos rfl]
    congr 2
    omega
  | cons c cs ih =>
    have other : c ≠ '\n' := fun same => flat (same ▸ List.mem_cons_self)
    have shifted : c.utf8Size + byteLength cs + 1 + place - c.utf8Size = byteLength cs + 1 + place := by omega
    rw [List.cons_append, feedsBefore, byteLength_cons, if_neg (by omega), if_neg other, shifted,
      ih fun held => flat (List.mem_cons_of_mem c held), Nat.zero_add]

theorem amongReturns_flat (flat : '\n' ∉ line) {place : Nat} (within : place ≤ byteLength line) :
    amongReturns (line ++ source) place = place := by
  rw [amongReturns, feedsBefore_flat flat within, Nat.add_zero]

theorem amongReturns_cons (flat : '\n' ∉ line) (place : Nat) :
    amongReturns (line ++ '\n' :: source) (byteLength line + 1 + place) =
      byteLength line + 1 + 1 + amongReturns source place := by
  rw [amongReturns, feedsBefore_cons flat, amongReturns]
  omega

theorem amongReturns_zero (source : List Char) : amongReturns source 0 = 0 := by
  have still : amongReturns ([] ++ source) 0 = 0 := amongReturns_flat List.not_mem_nil (Nat.le_refl 0)
  exact still

theorem byteLength_returned (source : List Char) :
    byteLength (returned source) = amongReturns source (byteLength source) := by
  have widths : '\n'.utf8Size = 1 ∧ '\r'.utf8Size = 1 := ⟨rfl, rfl⟩
  induction source using lines_induction with
  | last line flat =>
    have still : amongReturns (line ++ []) (byteLength line) = byteLength line :=
      amongReturns_flat flat (Nat.le_refl _)
    rw [List.append_nil] at still
    rw [returned_flat flat, still]
  | more line source flat ih =>
    rw [returned_cons flat]
    simp only [byteLength_append, byteLength_cons, byteLength_nil, widths, ← Nat.add_assoc]
    rw [amongReturns_cons flat, ih]

/-! ## Tokens -/

/-- The first line of a source stays where it is. -/
theorem moved_line (flat : '\n' ∉ line) :
    (tokensFrom 0 (segments symbols line)).map (Token.moved (amongReturns (line ++ source))) =
      tokensFrom 0 (segments symbols line) := by
  have same := tokensFrom_moved (f := amongReturns (line ++ source)) 0 (segments symbols line)
    fun n within => by
      rw [sourceOf_segments] at within
      rw [amongReturns_zero, Nat.zero_add, amongReturns_flat flat within]
  rw [amongReturns_zero] at same
  exact same.symm

/-- A line with a carriage return behind it. -/
theorem tokensFrom_return (flat : '\n' ∉ line) (whole : ¬ EndsInBackslash symbols true line) :
    tokensFrom 0 (segments symbols (line ++ ['\r'])) = tokensFrom 0 (segments symbols line) := by
  have blank : ∀ c ∈ ['\r'], Scan.isBlank c := List.forall_mem_singleton.mpr rfl
  rw [segments_flat (by simpa using flat), segments_flat flat, tokensFrom_tail blank line whole]

theorem tokensFrom_returned (source : List Char) (unescaped : FeedsUnescaped symbols source) :
    tokensFrom 0 (segments symbols (returned source)) =
      (tokensFrom 0 (segments symbols source)).map (Token.moved (amongReturns source)) := by
  induction source using lines_induction with
  | last line flat =>
    have still : (tokensFrom 0 (segments symbols line)).map (Token.moved (amongReturns (line ++ []))) =
        tokensFrom 0 (segments symbols line) := moved_line flat
    rw [List.append_nil] at still
    rw [returned_flat flat, still]
  | more line source flat ih =>
    obtain ⟨whole, others⟩ := (feedsUnescaped_cons flat).mp unescaped
    have behind : (fun place => byteLength (line ++ ['\r']) + 1 + amongReturns source place) =
        fun place => amongReturns (line ++ '\n' :: source) (byteLength line + 1 + place) := by
      funext place
      rw [amongReturns_cons flat, byteLength_append]
      rfl
    rw [returned_cons flat, tokensFrom_lines, tokensFrom_lines, tokensFrom_return flat whole, ih others,
      List.map_append, moved_line flat, List.map_map, List.map_map]
    congr 2
    funext token
    exact congrArg token.moved behind

/-- Behind a backslash that stands alone a carriage return goes into the token. -/
theorem texts_return_ne (flat : '\n' ∉ line) (ends : EndsInBackslash symbols true line) :
    textsOf (segments symbols (line ++ ['\r'])) ≠ textsOf (segments symbols line) ∧
      (textsOf (segments symbols (line ++ ['\r']))).length = (textsOf (segments symbols line)).length := by
  obtain ⟨front, alone, escaped⟩ := lineSegments_escape (b := '\r') rfl line ends
  rw [segments_flat (by simpa using flat), segments_flat flat, alone, escaped]
  simp only [textsOf, List.filterMap_append, List.map_append]
  constructor
  · intro same
    have last := List.append_cancel_left same
    revert last
    decide
  · rw [List.length_append, List.length_append]
    rfl

theorem textsOf_segments_cons (symbols : SymbolTable) (line source : List Char) :
    textsOf (segments symbols (line ++ '\n' :: source)) =
      textsOf (segments symbols line) ++ textsOf (segments symbols source) := by
  simp [segments_lines, textsOf, Segment.gap]

theorem textsOf_returned_iff (source : List Char) :
    textsOf (segments symbols (returned source)) = textsOf (segments symbols source) ↔
      FeedsUnescaped symbols source := by
  constructor
  · intro same
    induction source using lines_induction with
    | last line flat => exact feedsUnescaped_flat flat
    | more line source flat ih =>
      rw [returned_cons flat, textsOf_segments_cons, textsOf_segments_cons] at same
      by_cases ends : EndsInBackslash symbols true line
      · obtain ⟨other, length⟩ := texts_return_ne flat ends
        exact absurd (List.append_inj same length).1 other
      · have front : textsOf (segments symbols (line ++ ['\r'])) = textsOf (segments symbols line) := by
          rw [← tokensFrom_texts 0, ← tokensFrom_texts 0, tokensFrom_return flat ends]
        rw [front] at same
        exact (feedsUnescaped_cons flat).mpr ⟨ends, ih (List.append_cancel_left same)⟩
  · intro unescaped
    rw [← tokensFrom_texts 0, ← tokensFrom_texts 0, tokensFrom_returned source unescaped, Token.texts_moved]

end Lines

/-- Where no line feed follows a backslash that stands alone, and only there, a source with carriage returns
in front of its line feeds has tokens with the same texts. They stand at the moved places, and the source is
parsed to the same nodes or refused for the same cause at the moved place. -/
theorem line_ends (symbols : SymbolTable) (source : String) :
    ((tokens symbols (withReturns source)).map (·.text) = (tokens symbols source).map (·.text) ↔
        FeedsUnescaped symbols source.toList) ∧
      (FeedsUnescaped symbols source.toList →
        tokens symbols (withReturns source) =
            (tokens symbols source).map (Token.moved (amongReturns source.toList)) ∧
          Formula.parse symbols (withReturns source) =
            (Formula.parse symbols source).mapError (FormulaError.moved (amongReturns source.toList))) := by
  have returns : tokens symbols (withReturns source) =
      tokensFrom 0 (segments symbols (returned source.toList)) := by
    rw [tokens, withReturns, String.toList_ofList]
  constructor
  · rw [returns, tokens, tokensFrom_texts, tokensFrom_texts]
    exact textsOf_returned_iff source.toList
  · intro unescaped
    have same : tokens symbols (withReturns source) =
        (tokens symbols source).map (Token.moved (amongReturns source.toList)) :=
      returns.trans (tokensFrom_returned source.toList unescaped)
    have stop : (withReturns source).utf8ByteSize = amongReturns source.toList source.utf8ByteSize := by
      rw [withReturns, ← byteLength_eq, byteLength_returned, byteLength_eq, String.ofList_toList]
    exact ⟨same, Formula.parse_moved symbols (amongReturns_zero source.toList) same stop⟩

theorem line_ends_comment : FeedsUnescaped ⟨[]⟩ "x%\\\ny".toList ∧
    tokens ⟨[]⟩ (withReturns "x%\\\ny") =
      (tokens ⟨[]⟩ "x%\\\ny").map (Token.moved (amongReturns "x%\\\ny".toList)) := by
  have unescaped : FeedsUnescaped ⟨[]⟩ "x%\\\ny".toList := by decide +kernel
  exact ⟨unescaped, ((line_ends ⟨[]⟩ "x%\\\ny").2 unescaped).1⟩

/-- A backslash at the end of a line is a token; with a carriage return behind it the two are one. -/
theorem backslash_takes_return :
    '\r' ∉ "x\\\ny".toList ∧ (tokens ⟨[]⟩ "x\\\ny").map (·.text) = ["x", "\\", "y"] ∧
      (tokens ⟨[]⟩ (withReturns "x\\\ny")).map (·.text) = ["x", "\\\r", "y"] := by
  decide +kernel

end FormulaMarkup.Source

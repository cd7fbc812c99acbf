import FormulaMarkup.Source.Token
import Mathlib.Data.List.Basic
import Mathlib.Data.List.TakeWhile
import Mathlib.Tactic.Common

/-!
What the lexer keeps of a source. Every token stands on a stretch of whole characters inside one
line, and reads as that stretch, up to its blanks or to the symbol that a command names. Between the
tokens nothing is left out but blanks, comments, the braces of a raw text argument, and text
commands whose argument is empty. Main statement: `tokens_keep_source`.
-/
namespace FormulaMarkup

namespace Source

/-- The texts that a stretch of source can read as. -/
inductive Reads (symbols : SymbolTable) (source : List Char) : String → Prop
  | written : Reads symbols source (String.ofList source)
  | withoutBlanks : Reads symbols source (String.ofList (source.filter (! Scan.isBlank ·)))
  | symbol {name : List Char} {c : Char} (command : source = "\\math".toList ++ name)
      (letters : ∀ d ∈ name, d.isAlpha) (known : symbols.character? (String.ofList source) = some c) :
      Reads symbols source (String.singleton c)

/- A source from a place on, with the tokens that stand in it from left to right. What is between two
tokens is taken by the first four constructors, and by the two braces of `text`. -/
inductive Layout (symbols : SymbolTable) : Nat → List Char → List Token → Prop
  | nothing {place : Nat} : Layout symbols place [] []
  | blank {place : Nat} {c : Char} {cs : List Char} {ts : List Token} (blank : Scan.isBlank c)
      (rest : Layout symbols (place + c.utf8Size) cs ts) : Layout symbols place (c :: cs) ts
  | comment {place : Nat} {note cs : List Char} {ts : List Token} (line : '\n' ∉ note)
      (ends : cs = [] ∨ cs.head? = some '\n')
      (rest : Layout symbols (place + byteLength ('%' :: note)) cs ts) :
      Layout symbols place ('%' :: note ++ cs) ts
  | emptyText {place : Nat} {name blanks cs : List Char} {ts : List Token}
      (command : String.ofList name ∈ Lexeme.textCommands) (between : ∀ c ∈ blanks, Scan.isBlank c)
      (rest : Layout symbols (place + byteLength ('\\' :: name ++ blanks ++ ['\x7b', '\x7d'])) cs ts) :
      Layout symbols place ('\\' :: name ++ blanks ++ ['\x7b', '\x7d'] ++ cs) ts
  | text {place opening closing : Nat} {name blanks content cs : List Char} {ts : List Token}
      (command : String.ofList name ∈ Lexeme.textCommands) (between : ∀ c ∈ blanks, Scan.isBlank c)
      (some : content ≠ []) (line : '\n' ∉ '\\' :: name ++ content)
      (opens : opening = place + byteLength ('\\' :: name ++ blanks ++ ['\x7b']))
      (closes : closing = opening + byteLength content)
      (rest : Layout symbols (closing + 1) cs ts) :
      Layout symbols place ('\\' :: name ++ blanks ++ '\x7b' :: content ++ '\x7d' :: cs)
        (⟨String.ofList ('\\' :: name), ⟨place, place + byteLength ('\\' :: name)⟩⟩ ::
          ⟨String.ofList content, ⟨opening, closing⟩⟩ :: ts)
  | token {place : Nat} {inside cs : List Char} {text : String} {ts : List Token}
      (some : inside ≠ []) (line : '\n' ∉ inside) (nonempty : text ≠ "")
      (reads : Reads symbols inside text)
      (rest : Layout symbols (place + byteLength inside) cs ts) :
      Layout symbols place (inside ++ cs) (⟨text, ⟨place, place + byteLength inside⟩⟩ :: ts)

/-! ## Bytes -/

theorem foldl_utf8Size (cs : List Char) (n : Nat) :
    cs.foldl (fun bytes c => bytes + c.utf8Size) n = n + (String.ofList cs).utf8ByteSize := by
  induction cs generalizing n with
  | nil => rfl
  | cons c cs ih =>
    rw [List.foldl_cons, ih, String.ofList_cons, String.utf8ByteSize_append,
      String.utf8ByteSize_singleton]
    omega

theorem byteLength_eq (cs : List Char) : byteLength cs = (String.ofList cs).utf8ByteSize := by
  rw [byteLength, foldl_utf8Size]
  omega

@[simp] theorem byteLength_nil : byteLength [] = 0 := rfl

@[simp] theorem byteLength_append (front back : List Char) :
    byteLength (front ++ back) = byteLength front + byteLength back := by
  simp only [byteLength_eq, String.ofList_append, String.utf8ByteSize_append]

@[simp] theorem byteLength_cons (c : Char) (cs : List Char) :
    byteLength (c :: cs) = c.utf8Size + byteLength cs := by
  simp only [byteLength_eq, String.ofList_cons, String.utf8ByteSize_append,
    String.utf8ByteSize_singleton]

theorem byteLength_pos {cs : List Char} (some : cs ≠ []) : 0 < byteLength cs := by
  cases cs with
  | nil => contradiction
  | cons c cs =>
    have := c.utf8Size_pos
    rw [byteLength_cons]
    omega

/-! ## Segments -/

@[simp] theorem sourceOf_nil : Segment.sourceOf [] = [] := rfl

@[simp] theorem sourceOf_cons (segment : Segment) (rest : List Segment) :
    Segment.sourceOf (segment :: rest) = segment.source ++ Segment.sourceOf rest :=
  List.flatMap_cons

theorem sourceOf_append (front back : List Segment) :
    Segment.sourceOf (front ++ back) = Segment.sourceOf front ++ Segment.sourceOf back :=
  List.flatMap_append

theorem tokensFrom_append (place : Nat) (front back : List Segment) :
    tokensFrom place (front ++ back) =
      tokensFrom place front ++ tokensFrom (place + byteLength (Segment.sourceOf front)) back := by
  induction front generalizing place with
  | nil => rfl
  | cons segment rest ih =>
    have along : place + byteLength (Segment.sourceOf (segment :: rest)) =
        place + byteLength segment.source + byteLength (Segment.sourceOf rest) := by
      rw [sourceOf_cons, byteLength_append, Nat.add_assoc]
    rw [along, List.cons_append, tokensFrom, tokensFrom]
    cases segment.text with
    | none => exact ih _
    | some text => exact congrArg (_ :: ·) (ih _)

/- Segments are laid out before a rest of the source if their tokens go on the layout of any tokens
of that rest. -/
def Laid (symbols : SymbolTable) (segments : List Segment) (behind : List Char) : Prop :=
  ∀ place ts, Layout symbols (place + byteLength (Segment.sourceOf segments)) behind ts →
    Layout symbols place (Segment.sourceOf segments ++ behind) (tokensFrom place segments ++ ts)

theorem Laid.append {symbols : SymbolTable} {front back : List Segment} {behind : List Char}
    (first : Laid symbols front (Segment.sourceOf back ++ behind))
    (second : Laid symbols back behind) : Laid symbols (front ++ back) behind := by
  intro place ts rest
  rw [sourceOf_append, byteLength_append, ← Nat.add_assoc] at rest
  rw [sourceOf_append, tokensFrom_append, List.append_assoc, List.append_assoc]
  exact first _ _ (second _ _ rest)

theorem Laid.blanks {symbols : SymbolTable} {cs behind : List Char}
    (blank : ∀ c ∈ cs, Scan.isBlank c) : Laid symbols [.gap cs] behind := by
  intro place ts rest
  simp only [sourceOf_cons, sourceOf_nil, Segment.gap, List.append_nil] at rest ⊢
  induction cs generalizing place with
  | nil => exact rest
  | cons c cs ih =>
    rw [byteLength_cons, ← Nat.add_assoc] at rest
    apply Layout.blank (blank c (List.mem_cons_self ..))
    apply ih (fun d listed => blank d (List.mem_cons_of_mem c listed))
    exact rest

theorem Laid.token {symbols : SymbolTable} {inside text behind : List Char} (some : inside ≠ [])
    (line : '\n' ∉ inside) (nonempty : text ≠ [])
    (reads : Reads symbols inside (String.ofList text)) :
    Laid symbols [⟨inside, .some text⟩] behind := by
  intro place ts rest
  simp only [sourceOf_cons, sourceOf_nil, List.append_nil] at rest ⊢
  apply Layout.token some line ?_ reads rest
  rwa [Ne, String.ofList_eq_empty_iff]

theorem Laid.written {symbols : SymbolTable} {inside behind : List Char} (some : inside ≠ [])
    (line : '\n' ∉ inside) : Laid symbols [.token inside] behind :=
  Laid.token some line some .written

/- Segments that need no more than themselves to be laid out: blanks, and tokens as written. -/
inductive Bare : Segment → Prop
  | blanks {cs : List Char} (blank : ∀ c ∈ cs, Scan.isBlank c) : Bare (.gap cs)
  | written {cs : List Char} (some : cs ≠ []) : Bare (.token cs)

theorem Laid.of_bare {symbols : SymbolTable} {segments : List Segment} {behind : List Char}
    (flat : ∀ segment ∈ segments, '\n' ∉ segment.source) (bare : ∀ segment ∈ segments, Bare segment) :
    Laid symbols segments behind := by
  induction segments with
  | nil =>
    intro place ts rest
    exact rest
  | cons segment rest ih =>
    change Laid symbols ([segment] ++ rest) behind
    apply Laid.append
    · cases bare segment (List.mem_cons_self ..) with
      | blanks blank => exact Laid.blanks blank
      | written some => exact Laid.written some (flat _ (List.mem_cons_self ..))
    · apply ih
      · exact fun s listed => flat s (List.mem_cons_of_mem _ listed)
      · exact fun s listed => bare s (List.mem_cons_of_mem _ listed)

theorem isBlank_of_takeWhile (cs : List Char) : ∀ c ∈ cs.takeWhile Scan.isBlank, Scan.isBlank c :=
  fun _ held => List.mem_takeWhile_imp held

/-! ## Lexemes -/

section Lexemes

variable {symbols : SymbolTable} {line behind : List Char} {r : Reading}

/- A lexeme of one segment takes at least a character. -/
theorem taken_of_single {segment : Segment} {rest : List Char}
    (keeps : Reading.Of line ⟨[segment], rest⟩) :
    segment.source ++ rest = line ∧ segment.source ≠ [] := by
  obtain ⟨whole, shorter⟩ := keeps
  simp only [sourceOf_cons, sourceOf_nil, List.append_nil] at whole shorter
  constructor
  · exact whole
  · rintro none
    rw [none, List.nil_append] at whole
    rw [whole] at shorter
    omega

theorem flat_of_segment (keeps : r.Of line) (flat : '\n' ∉ line) {segment : Segment}
    (listed : segment ∈ r.segments) : '\n' ∉ segment.source := by
  intro held
  apply flat
  rw [← keeps.1]
  exact List.mem_append_left _ (List.mem_flatMap.mpr ⟨segment, listed, held⟩)

theorem laid_written {taken rest : List Char} (flat : '\n' ∉ line)
    (keeps : Reading.Of line ⟨[.token taken], rest⟩) : Laid symbols [.token taken] behind :=
  Laid.written (taken_of_single keeps).2 (flat_of_segment keeps flat (List.mem_singleton_self _))

/- A lexeme starts at a character that is no blank, so taking the blanks out leaves something. -/
theorem laid_withoutBlanks {c : Char} {cs taken rest : List Char} (start : ¬ Scan.isBlank c)
    (flat : '\n' ∉ c :: cs) (keeps : Reading.Of (c :: cs) ⟨[.withoutBlanks taken], rest⟩) :
    Laid symbols [.withoutBlanks taken] behind := by
  obtain ⟨whole, some⟩ := taken_of_single keeps
  have line := flat_of_segment keeps flat (List.mem_singleton_self _)
  apply Laid.token some line ?_ .withoutBlanks
  obtain ⟨d, ds, same⟩ := List.exists_cons_of_ne_nil some
  rw [same, List.cons_append, List.cons.injEq] at whole
  have first : taken = c :: ds := whole.1 ▸ same
  change taken.filter (! Scan.isBlank ·) ≠ []
  rw [first, List.filter_cons_of_pos (by simpa using start)]
  exact List.cons_ne_nil _ _

theorem laid_dimension? {c : Char} {cs : List Char} (start : ¬ Scan.isBlank c) (flat : '\n' ∉ c :: cs)
    (h : Lexeme.dimension? (c :: cs) = some r) : Laid symbols r.segments behind := by
  have keeps := Lexeme.of_dimension? h
  obtain ⟨⟨taken, rest⟩, _, rfl⟩ := Option.map_eq_some_iff.1 h
  exact laid_withoutBlanks start flat keeps

/- The note of a comment goes on to the end of its line, behind which the source is over or the next
line begins. -/
theorem laid_comment? (ends : behind = [] ∨ behind.head? = some '\n') (flat : '\n' ∉ line)
    (h : Lexeme.comment? line = some r) : Laid symbols r.segments (r.rest ++ behind) := by
  unfold Lexeme.comment? at h
  split at h
  · rename_i note
    obtain rfl := Option.some.inj h
    intro place ts rest
    simp only [sourceOf_cons, sourceOf_nil, Segment.gap, List.append_nil, List.nil_append] at rest ⊢
    exact Layout.comment (fun held => flat (List.mem_cons_of_mem _ held)) ends rest
  · contradiction

theorem laid_scriptDigit? (flat : '\n' ∉ line) (h : Lexeme.scriptDigit? line = some r) :
    Laid symbols r.segments behind := by
  have keeps := Lexeme.of_scriptDigit? h
  unfold Lexeme.scriptDigit? at h
  split at h
  · rename_i mark digit rest
    split at h
    · obtain rfl := Option.some.inj h
      apply Laid.of_bare (fun _ => flat_of_segment keeps flat)
      intro segment listed
      rcases List.mem_pair.mp listed with rfl | rfl
      · exact .written (List.cons_ne_nil _ _)
      · exact .written (List.cons_ne_nil _ _)
    · contradiction
  · contradiction

theorem laid_number? (flat : '\n' ∉ line) (h : Lexeme.number? line = some r) :
    Laid symbols r.segments behind := by
  have keeps := Lexeme.of_number? h
  obtain ⟨⟨taken, rest⟩, _, rfl⟩ := Option.map_eq_some_iff.1 h
  exact laid_written flat keeps

theorem laid_point? (flat : '\n' ∉ line) (h : Lexeme.point? line = some r) :
    Laid symbols r.segments behind := by
  have keeps := Lexeme.of_point? h
  unfold Lexeme.point? at h
  split at h
  · obtain rfl := Option.some.inj h
    exact laid_written flat keeps
  · contradiction

theorem laid_escaped? (flat : '\n' ∉ line) (h : Lexeme.escaped? line = some r) :
    Laid symbols r.segments behind := by
  have keeps := Lexeme.of_escaped? h
  unfold Lexeme.escaped? at h
  split at h
  · split at h
    · obtain rfl := Option.some.inj h
      exact laid_written flat keeps
    · contradiction
  · contradiction

theorem laid_environmentHeader? {c : Char} {cs : List Char} (start : ¬ Scan.isBlank c)
    (flat : '\n' ∉ c :: cs) (h : Lexeme.environmentHeader? (c :: cs) = some r) :
    Laid symbols r.segments behind := by
  have keeps := Lexeme.of_environmentHeader? h
  unfold Lexeme.environmentHeader? at h
  split at h
  · contradiction
  · split at h
    · obtain ⟨⟨taken, rest⟩, _, rfl⟩ := Option.map_eq_some_iff.1 h
      exact laid_withoutBlanks start flat keeps
    · contradiction

theorem laid_operatorName? {c : Char} {cs : List Char} (start : ¬ Scan.isBlank c)
    (flat : '\n' ∉ c :: cs) (h : Lexeme.operatorName? (c :: cs) = some r) :
    Laid symbols r.segments behind := by
  have keeps := Lexeme.of_operatorName? h
  unfold Lexeme.operatorName? at h
  split at h
  · contradiction
  · split at h
    · obtain ⟨⟨taken, rest⟩, _, rfl⟩ := Option.map_eq_some_iff.1 h
      exact laid_withoutBlanks start flat keeps
    · contradiction

theorem laid_rawArgument? (flat : '\n' ∉ line) (h : Lexeme.rawArgument? line = some r) :
    Laid symbols r.segments behind := by
  have keeps := Lexeme.of_rawArgument? h
  unfold Lexeme.rawArgument? at h
  split at h
  · contradiction
  · rename_i name after _
    have between := isBlank_of_takeWhile after
    split at h
    · rename_i listed
      have command : String.ofList name ∈ Lexeme.textCommands := List.elem_iff.mp listed
      split at h
      · rename_i inner _
        simp only at h
        split at h
        · rename_i closing rest closed
          have ends := List.head?_dropWhile_not (· ≠ '\x7d') inner
          rw [closed] at ends
          obtain rfl : closing = '\x7d' := by simpa using ends
          split at h
          · obtain rfl := Option.some.inj h
            intro place ts more
            have whole := @Layout.emptyText symbols place name _ behind ts command between
              (by simpa [Segment.gap] using more)
            simpa [Segment.gap, tokensFrom] using whole
          · rename_i some
            obtain rfl := Option.some.inj h
            intro place ts more
            have brace : '\x7d'.utf8Size = 1 := rfl
            have before := flat_of_segment keeps flat (List.mem_cons_self ..)
            have inside := flat_of_segment keeps flat
              (List.mem_cons_of_mem _ (List.mem_cons_of_mem _ (List.mem_cons_self ..)))
            have whole := @Layout.text symbols place _ _ name _ _ behind ts command between
              (fun none => some (List.isEmpty_iff.mpr none))
              (fun held => (List.mem_append.mp held).elim before inside) rfl rfl
              (by simpa [Segment.gap, Segment.token, Nat.add_assoc, brace] using more)
            simpa [Segment.gap, Segment.token, tokensFrom, Nat.add_assoc] using whole
        · contradiction
      · contradiction
    · contradiction

theorem laid_shortFraction? (flat : '\n' ∉ line) (h : Lexeme.shortFraction? line = some r) :
    Laid symbols r.segments behind := by
  apply Laid.of_bare fun _ => flat_of_segment (Lexeme.of_shortFraction? h) flat
  unfold Lexeme.shortFraction? at h
  split at h
  · contradiction
  · rename_i name after _
    split at h
    · split at h
      · rename_i upper between _
        split at h
        · have first : ∀ segment ∈ [Segment.token ('\\' :: name),
              .gap (after.takeWhile Scan.isBlank), .token [upper]], Bare segment := by
            rw [List.forall_mem_cons, List.forall_mem_cons, List.forall_mem_singleton]
            exact ⟨.written (List.cons_ne_nil _ _), .blanks (isBlank_of_takeWhile _),
              .written (List.cons_ne_nil _ _)⟩
          simp only at h
          split at h
          · split at h
            · rename_i under rest _ _
              have second : ∀ segment ∈ [Segment.gap (between.takeWhile Scan.isBlank),
                  .token [under]], Bare segment := by
                rw [List.forall_mem_cons, List.forall_mem_singleton]
                exact ⟨.blanks (isBlank_of_takeWhile _), .written (List.cons_ne_nil _ _)⟩
              obtain rfl := Option.some.inj h
              exact List.forall_mem_append.mpr ⟨first, second⟩
            · obtain rfl := Option.some.inj h
              exact first
          · obtain rfl := Option.some.inj h
            exact first
        · contradiction
      · contradiction
    · contradiction

theorem letters_of_command? {name rest : List Char} (h : Scan.command? line = some (name, rest)) :
    ∀ c ∈ name, c.isAlpha := by
  unfold Scan.command? at h
  split at h
  · split at h
    · contradiction
    · obtain ⟨rfl, rfl⟩ := Prod.mk.inj (Option.some.inj h)
      exact fun c held => List.mem_takeWhile_imp held
  · contradiction

theorem laid_command? {first : Bool} (flat : '\n' ∉ line)
    (h : Lexeme.command? symbols first line = some r) : Laid symbols r.segments behind := by
  have keeps := Lexeme.of_command? h
  unfold Lexeme.command? at h
  split at h
  · contradiction
  · rename_i name rest found
    simp only at h
    split at h
    · rename_i c known
      obtain rfl := Option.some.inj h
      split at known
      · rename_i start
        rw [Bool.and_eq_true, List.isPrefixOf_iff_prefix] at start
        obtain ⟨_, tail, rfl⟩ := start
        apply Laid.token (List.cons_ne_nil _ _) ?_ (List.cons_ne_nil _ _)
        · apply @Reads.symbol symbols _ tail c rfl ?_ known
          intro d held
          exact letters_of_command? found d (List.mem_append_right _ held)
        · exact flat_of_segment keeps flat (List.mem_singleton_self _)
      · contradiction
    · obtain rfl := Option.some.inj h
      exact laid_written flat keeps

/- A rule may look at the rest of the line only, so what is behind the line comes in for a comment
alone. -/
theorem laid_rule {first : Bool} {c : Char} {cs : List Char} {rule : List Char → Option Reading}
    (start : ¬ Scan.isBlank c) (flat : '\n' ∉ c :: cs)
    (ends : behind = [] ∨ behind.head? = some '\n') (listed : rule ∈ Lexeme.rules symbols first)
    (h : rule (c :: cs) = some r) : Laid symbols r.segments (r.rest ++ behind) := by
  simp only [Lexeme.rules, List.mem_cons, List.not_mem_nil, or_false] at listed
  rcases listed with rfl | rfl | rfl | rfl | rfl | rfl | rfl | rfl | rfl | rfl | rfl
  · exact laid_dimension? start flat h
  · exact laid_comment? ends flat h
  · exact laid_scriptDigit? flat h
  · exact laid_number? flat h
  · exact laid_point? flat h
  · exact laid_escaped? flat h
  · exact laid_environmentHeader? start flat h
  · exact laid_operatorName? start flat h
  · exact laid_rawArgument? flat h
  · exact laid_shortFraction? flat h
  · exact laid_command? flat h

theorem laid_read {c : Char} {cs : List Char} (first : Bool) (start : ¬ Scan.isBlank c)
    (flat : '\n' ∉ c :: cs) (ends : behind = [] ∨ behind.head? = some '\n') :
    Laid symbols (Lexeme.read symbols first c cs).segments
      ((Lexeme.read symbols first c cs).rest ++ behind) := by
  unfold Lexeme.read
  cases found : (Lexeme.rules symbols first).findSome? fun rule => rule (c :: cs) with
  | none =>
    apply Laid.written (List.cons_ne_nil _ _)
    intro held
    exact flat (List.mem_cons.mpr (.inl (List.mem_singleton.mp held)))
  | some r =>
    obtain ⟨rule, listed, applies⟩ := List.exists_of_findSome?_eq_some found
    exact laid_rule start flat ends listed applies

end Lexemes

/-! ## Lines -/

theorem sourceOf_lineSegments (symbols : SymbolTable) (first : Bool) (line : List Char) :
    Segment.sourceOf (lineSegments symbols first line) = line := by
  fun_induction lineSegments symbols first line with
  | case1 => rfl
  | case2 first c cs blank ih =>
    rw [sourceOf_cons, ih]
    rfl
  | case3 first c cs some reading ih =>
    rw [sourceOf_append, ih]
    exact (Lexeme.of_read symbols first c cs).1

theorem laid_line {symbols : SymbolTable} (first : Bool) {line behind : List Char}
    (flat : '\n' ∉ line) (ends : behind = [] ∨ behind.head? = some '\n') :
    Laid symbols (lineSegments symbols first line) behind := by
  fun_induction lineSegments symbols first line with
  | case1 =>
    intro place ts rest
    exact rest
  | case2 first c cs blank ih =>
    change Laid symbols ([.gap [c]] ++ _) behind
    apply Laid.append
    · exact Laid.blanks (by simpa using blank)
    · exact ih fun held => flat (List.mem_cons_of_mem c held)
  | case3 first c cs some reading ih =>
    have whole := (Lexeme.of_read symbols first c cs).1
    apply Laid.append
    · rw [sourceOf_lineSegments]
      exact laid_read first some flat ends
    · apply ih
      intro held
      apply flat
      rw [← whole]
      exact List.mem_append_right _ held

theorem sourceOf_lines (symbols : SymbolTable) (lines : List (List Char)) :
    Segment.sourceOf ([Segment.gap ['\n']].intercalate (lines.map (lineSegments symbols true))) =
      ['\n'].intercalate lines := by
  induction lines with
  | nil => rfl
  | cons line rest ih =>
    cases rest with
    | nil => simp [sourceOf_lineSegments]
    | cons next rest =>
      rw [List.map_cons] at ih
      rw [List.map_cons, List.map_cons, List.intercalate_cons_cons, sourceOf_append,
        sourceOf_append, sourceOf_lineSegments, ih, List.intercalate_cons_cons]
      rfl

theorem laid_lines (symbols : SymbolTable) {lines : List (List Char)}
    (flat : ∀ line ∈ lines, '\n' ∉ line) :
    Laid symbols ([Segment.gap ['\n']].intercalate (lines.map (lineSegments symbols true))) [] := by
  induction lines with
  | nil =>
    intro place ts rest
    exact rest
  | cons line rest ih =>
    have first := flat line (List.mem_cons_self ..)
    have others := ih fun l listed => flat l (List.mem_cons_of_mem line listed)
    cases rest with
    | nil =>
      rw [List.map_singleton, List.intercalate_singleton]
      exact laid_line true first (.inl rfl)
    | cons next rest =>
      rw [List.map_cons] at others
      rw [List.map_cons, List.map_cons, List.intercalate_cons_cons, List.append_assoc]
      apply Laid.append
      · exact laid_line true first (.inr rfl)
      · apply Laid.append
        · exact Laid.blanks (by simp [Scan.isBlank])
        · exact others

theorem not_mem_of_splitOn {source line : List Char} (listed : line ∈ source.splitOn '\n') :
    '\n' ∉ line := by
  induction source generalizing line with
  | nil =>
    obtain rfl := by simpa using listed
    exact List.not_mem_nil
  | cons c cs ih =>
    obtain ⟨part, parts, split⟩ := List.exists_cons_of_ne_nil (List.splitOnP_ne_nil (· == '\n') cs)
    have before : ∀ part ∈ List.splitOnP (· == '\n') cs, '\n' ∉ part := fun _ => ih
    rw [List.splitOn, List.splitOnP_cons_eq_if_modifyHead] at listed
    rw [split] at listed before
    split at listed
    · rcases List.mem_cons.mp listed with rfl | later
      · exact List.not_mem_nil
      · exact before line later
    · rename_i other
      rw [List.modifyHead_cons] at listed
      rcases List.mem_cons.mp listed with rfl | later
      · intro held
        rcases List.mem_cons.mp held with rfl | inside
        · exact other (beq_self_eq_true _)
        · exact before part (List.mem_cons_self ..) inside
      · exact before line (List.mem_cons_of_mem _ later)

theorem layout_tokens (symbols : SymbolTable) (source : String) :
    Layout symbols 0 source.toList (tokens symbols source) := by
  have whole := laid_lines symbols (fun _ => @not_mem_of_splitOn source.toList _) 0 [] .nothing
  rw [sourceOf_lines, List.intercalate_splitOn, List.append_nil, List.append_nil] at whole
  exact whole

/-! ## Tokens in their source -/

/-- A token that stands in a source: its span is a stretch of whole characters of one line, and its
text is a way to read them. -/
def Stands (symbols : SymbolTable) (source : String) (t : Token) : Prop :=
  ∃ before inside behind : String, source = before ++ inside ++ behind ∧
    t.span = ⟨before.utf8ByteSize, (before ++ inside).utf8ByteSize⟩ ∧ t.span.start < t.span.stop ∧
    '\n' ∉ inside.toList ∧ t.text ≠ "" ∧ Reads symbols inside.toList t.text

theorem Layout.start_le {symbols : SymbolTable} {place : Nat} {cs : List Char} {ts : List Token}
    (layout : Layout symbols place cs ts) : ∀ t ∈ ts, place ≤ t.span.start := by
  induction layout with
  | nothing => exact fun _ none => absurd none List.not_mem_nil
  | blank _ _ ih => exact fun t listed => Nat.le_of_add_right_le (ih t listed)
  | comment _ _ _ ih => exact fun t listed => Nat.le_of_add_right_le (ih t listed)
  | emptyText _ _ _ ih => exact fun t listed => Nat.le_of_add_right_le (ih t listed)
  | @text place opening closing _ _ _ _ _ _ _ _ _ opens closes _ ih =>
    have inside : place ≤ opening := opens ▸ Nat.le_add_right _ _
    intro t listed
    rcases List.mem_cons.mp listed with rfl | listed
    · exact Nat.le_refl place
    · rcases List.mem_cons.mp listed with rfl | later
      · exact inside
      · have := ih t later
        omega
  | token _ _ _ _ _ ih =>
    intro t listed
    rcases List.mem_cons.mp listed with rfl | later
    · exact Nat.le_refl _
    · exact Nat.le_of_add_right_le (ih t later)

theorem Layout.ordered {symbols : SymbolTable} {place : Nat} {cs : List Char} {ts : List Token}
    (layout : Layout symbols place cs ts) : ts.Pairwise fun a b => a.span.stop ≤ b.span.start := by
  induction layout with
  | nothing => exact .nil
  | blank _ _ ih => exact ih
  | comment _ _ _ ih => exact ih
  | emptyText _ _ _ ih => exact ih
  | @text place opening closing name _ _ _ ts _ _ _ _ opens closes rest ih =>
    have first : place + byteLength ('\\' :: name) ≤ opening := by
      rw [opens, byteLength_append, byteLength_append]
      omega
    have later : ∀ t ∈ ts, closing + 1 ≤ t.span.start := rest.start_le
    apply List.Pairwise.cons
    · intro t listed
      rcases List.mem_cons.mp listed with rfl | behind
      · exact first
      · have := later t behind
        change place + byteLength ('\\' :: name) ≤ t.span.start
        omega
    · apply List.Pairwise.cons
      · exact fun t behind => Nat.le_of_succ_le (later t behind)
      · exact ih
  | token _ _ _ _ rest ih => exact .cons rest.start_le ih

theorem stands_of_reads {symbols : SymbolTable} (before : List Char) {inside : List Char}
    (behind : List Char) {text : String} (some : inside ≠ []) (line : '\n' ∉ inside) (nonempty : text ≠ "")
    (reads : Reads symbols inside text) :
    Stands symbols (String.ofList (before ++ (inside ++ behind)))
      ⟨text, ⟨byteLength before, byteLength before + byteLength inside⟩⟩ := by
  have further := byteLength_pos some
  have front : (String.ofList before).utf8ByteSize = byteLength before := (byteLength_eq before).symm
  have middle : (String.ofList inside).utf8ByteSize = byteLength inside := (byteLength_eq inside).symm
  exists String.ofList before, String.ofList inside, String.ofList behind
  rw [String.utf8ByteSize_append, front, middle, String.toList_ofList, String.append_assoc,
    ← String.ofList_append, ← String.ofList_append]
  exact ⟨rfl, rfl, Nat.lt_add_of_pos_right further, line, nonempty, reads⟩

/- The tokens of a layout stand in what is before its place together with its own source. -/
theorem Layout.stands {symbols : SymbolTable} {place : Nat} {cs : List Char} {ts : List Token}
    (layout : Layout symbols place cs ts) (before : List Char) (reached : place = byteLength before) :
    ∀ t ∈ ts, Stands symbols (String.ofList (before ++ cs)) t := by
  induction layout generalizing before with
  | nothing => exact fun _ none => absurd none List.not_mem_nil
  | @blank place c cs ts _ _ ih =>
    have further := ih (before ++ [c]) (by simp [reached])
    rwa [List.append_assoc] at further
  | @comment place note cs ts _ _ _ ih =>
    have further := ih (before ++ '%' :: note) (by simp [reached])
    rwa [List.append_assoc] at further
  | @emptyText place name blanks cs ts _ _ _ ih =>
    have further := ih (before ++ ('\\' :: name ++ blanks ++ ['\x7b', '\x7d']))
      (by rw [reached, byteLength_append before])
    rwa [List.append_assoc] at further
  | @text place opening closing name blanks content cs ts _ _ some line opens closes _ ih =>
    have brace : '\x7d'.utf8Size = 1 := rfl
    intro t listed
    rcases List.mem_cons.mp listed with rfl | listed
    · have word : '\n' ∉ '\\' :: name := fun held => line (List.mem_append_left _ held)
      have first := stands_of_reads before (blanks ++ '\x7b' :: content ++ '\x7d' :: cs)
        (List.cons_ne_nil _ _) word (String.ofList_eq_empty_iff.not.mpr (List.cons_ne_nil _ _))
        (@Reads.written symbols _)
      rw [reached]
      simpa using first
    · rcases List.mem_cons.mp listed with rfl | later
      · have argument : '\n' ∉ content := fun held => line (List.mem_append_right _ held)
        have second := stands_of_reads (before ++ ('\\' :: name ++ blanks ++ ['\x7b'])) ('\x7d' :: cs)
          some argument (String.ofList_eq_empty_iff.not.mpr some) (@Reads.written symbols _)
        rw [byteLength_append before, ← reached, ← opens, ← closes] at second
        simpa using second
      · have further := ih
          (before ++ ('\\' :: name ++ blanks ++ '\x7b' :: content ++ ['\x7d']))
          (by simp [closes, opens, reached, brace, Nat.add_assoc]) t later
        simpa using further
  | @token place inside cs text ts some line nonempty reads _ ih =>
    intro t listed
    rcases List.mem_cons.mp listed with rfl | later
    · rw [reached]
      exact stands_of_reads before cs some line nonempty reads
    · have further := ih (before ++ inside) (by rw [reached, byteLength_append]) t later
      rwa [List.append_assoc] at further

/-- The tokens of a source keep it: each stands in it, each begins where the one before it has ended
or later, and what is outside all of them is only what a layout leaves out. -/
theorem tokens_keep_source (symbols : SymbolTable) (source : String) :
    (∀ t ∈ tokens symbols source, Stands symbols source t) ∧
      (tokens symbols source).Pairwise (fun a b => a.span.stop ≤ b.span.start) ∧
      Layout symbols 0 source.toList (tokens symbols source) := by
  have layout := layout_tokens symbols source
  have stands := layout.stands [] rfl
  rw [List.nil_append, String.ofList_toList] at stands
  exact ⟨stands, layout.ordered, layout⟩

end Source

end FormulaMarkup

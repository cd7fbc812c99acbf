import FormulaMarkup.Proofs.Source.Respacing

/-!
Ordinary texts. In a text without backslashes, braces, scripts and comments the only lexemes of more than one
character are numbers and lengths, and all that they leave out are blanks. So the words of such a text, one
behind the other, are the text without its blanks, its line feeds included. Main statement: the words of an
ordinary text in braces.
-/
namespace FormulaMarkup.Source

open Grammar (Match Stops)
open Lexeme (Reads not_reads read_eq_iff)

variable {symbols : SymbolTable} {first : Bool} {c : Char} {cs : List Char}

/-! ## Sources of which a line has been begun -/

/-- The texts of the tokens of a source, of which the first line may have been begun. -/
def textsFrom (symbols : SymbolTable) (first : Bool) (source : List Char) : List String :=
  textsOf (lineSegments symbols first (source.takeWhile (· ≠ '\n'))) ++
    textsOf (segments symbols (source.dropWhile (· ≠ '\n')).tail)

/-- The first line of a source, and what stands behind it. -/
structure FirstLine (source line back : List Char) : Prop where
  whole : source = line ++ back
  flat : '\n' ∉ line
  ends : Stops (fun c => decide (c ≠ '\n')) back

theorem exists_firstLine (source : List Char) : ∃ line back, FirstLine source line back := by
  obtain ⟨line, back, rfl, inside, stops⟩ := Grammar.exists_run (fun c => decide (c ≠ '\n')) source
  exact ⟨line, back, rfl, fun feed => by simpa using inside _ feed, stops⟩

theorem textsFrom_firstLine {source line back : List Char} (parts : FirstLine source line back) :
    textsFrom symbols first source =
      textsOf (lineSegments symbols first line) ++ textsOf (segments symbols back.tail) := by
  have inside : ∀ c ∈ line, decide (c ≠ '\n') = true := by
    intro c mem
    rw [decide_eq_true_eq]
    exact fun feed => parts.flat (feed ▸ mem)
  rw [textsFrom, parts.whole, Grammar.takeWhile_run inside parts.ends, Grammar.dropWhile_run inside parts.ends]

theorem segments_nil : segments symbols [] = [] := by
  rw [segments_flat List.not_mem_nil, lineSegments_nil]

/-- A source whose first line has not been begun. -/
theorem textsFrom_true (source : List Char) :
    textsFrom symbols true source = textsOf (segments symbols source) := by
  obtain ⟨line, back, parts⟩ := exists_firstLine source
  rw [textsFrom_firstLine parts, parts.whole]
  cases back with
  | nil => simp [segments_nil, segments_flat parts.flat, textsOf]
  | cons feed rest =>
    obtain rfl : feed = '\n' := by simpa using parts.ends feed rfl
    rw [segments_lines, segments_flat parts.flat, textsOf_append, textsOf_append]
    simp [textsOf, Segment.gap]

theorem texts_eq (source : String) :
    (tokens symbols source).map (·.text) = textsFrom symbols true source.toList := by
  rw [textsFrom_true, tokens, tokensFrom_texts]

/-- A blank is passed over. A line feed begins the next line. -/
theorem textsFrom_blank (blank : Scan.isBlank c) (first : Bool) (cs : List Char) :
    ∃ first', textsFrom symbols first (c :: cs) = textsFrom symbols first' cs := by
  by_cases feed : c = '\n'
  · subst feed
    refine ⟨true, ?_⟩
    rw [textsFrom_true, textsFrom_firstLine ⟨(List.nil_append _).symm, List.not_mem_nil, .cons rfl⟩,
      lineSegments_nil]
    rfl
  · obtain ⟨line, back, parts⟩ := exists_firstLine cs
    have parts' : FirstLine (c :: cs) (c :: line) back :=
      ⟨by rw [parts.whole]; rfl, by simp [Ne.symm feed, parts.flat], parts.ends⟩
    refine ⟨first, ?_⟩
    rw [textsFrom_firstLine parts', textsFrom_firstLine parts, lineSegments_blank blank]
    rfl

/-- A lexeme takes something of its line, and leaves the rest of the line in front of the other lines. -/
theorem textsFrom_lexeme (visible : Scan.isBlank c = false) (first : Bool) {line back : List Char}
    (parts : FirstLine cs line back) :
    textsFrom symbols first (c :: cs) = textsOf (Lexeme.read symbols first c line).segments ++
      textsFrom symbols false ((Lexeme.read symbols first c line).rest ++ back) := by
  have other : c ≠ '\n' := by
    rintro rfl
    cases visible
  have parts' : FirstLine (c :: cs) (c :: line) back :=
    ⟨by rw [parts.whole]; rfl, by simp [other.symm, parts.flat], parts.ends⟩
  have kept := (Lexeme.of_read symbols first c line).1
  have flat : '\n' ∉ (Lexeme.read symbols first c line).rest := by
    intro mem
    apply parts'.flat
    rw [← kept]
    exact List.mem_append_right _ mem
  rw [textsFrom_firstLine parts', textsFrom_firstLine ⟨rfl, flat, parts.ends⟩,
    lineSegments_lexeme (by simp [visible]), textsOf_append, List.append_assoc]

/-! ## Ordinary texts -/

/-- A character that is no backslash, no brace, and starts neither a script nor a comment. -/
def OrdinaryChar (c : Char) : Prop := c ∉ "\\%_^\x7b\x7d".toList

instance (c : Char) : Decidable (OrdinaryChar c) :=
  inferInstanceAs (Decidable (_ ∉ _))

/-- The words of a text: none of them is empty, and one behind the other they are the text without its
blanks. -/
structure Spells (text : List Char) (words : List String) : Prop where
  filled : ∀ word ∈ words, word ≠ ""
  joined : words.flatMap String.toList = printed text

theorem chars_of_number {n : List Char} (isNumber : n ∈ Grammar.number) :
    ∀ c ∈ n, c.isDigit = true ∨ c = '.' := by
  obtain ⟨whole, digits, rfl | ⟨fraction, digits', rfl⟩⟩ := Grammar.mem_number.mp isNumber
  · exact fun c mem => .inl ((Grammar.mem_digits.mp digits).2 c mem)
  · intro c mem
    simp only [List.mem_append, List.mem_cons] at mem
    rcases mem with mem | rfl | mem
    · exact .inl ((Grammar.mem_digits.mp digits).2 c mem)
    · exact .inr rfl
    · exact .inl ((Grammar.mem_digits.mp digits').2 c mem)

theorem brace_notMem_number {n : List Char} (isNumber : n ∈ Grammar.number) : '\x7d' ∉ n := by
  intro mem
  rcases chars_of_number isNumber _ mem with digit | point
  · cases digit
  · exact absurd point (by decide)

theorem brace_notMem_dimension {w : List Char} (matched : w ∈ Grammar.dimension) : '\x7d' ∉ w := by
  obtain ⟨sign, signed, n, isNumber, gap, blank, a, b, unit, rfl⟩ := Grammar.mem_dimension.mp matched
  have letters : ∀ unit ∈ Scan.units, unit.1 ≠ '\x7d' ∧ unit.2 ≠ '\x7d' := by decide
  intro mem
  simp only [List.mem_append, List.mem_cons, List.not_mem_nil, or_false] at mem
  rcases mem with mem | mem | mem | mem | mem
  · rcases signed with rfl | rfl
    · cases mem
    · exact absurd mem (by decide)
  · exact brace_notMem_number isNumber mem
  · exact absurd (blank _ mem) (by decide)
  · exact (letters _ unit).1 mem.symm
  · exact (letters _ unit).2 mem.symm

theorem OrdinaryChar.opens {kind : Lexeme.Alternative} (ordinary : OrdinaryChar c) (opens : kind.opens c = true) :
    kind ∈ [.dimension, .number, .point, .character] := by
  have special (d : Char) (mem : d ∈ "\\%_^\x7b\x7d".toList) : (c == d) = false := by
    rw [beq_eq_false_iff_ne]
    rintro rfl
    exact ordinary mem
  cases kind <;> simp_all [Lexeme.Alternative.opens]

/-- An ordinary character starts one token, which has all that it takes but for the blanks. -/
theorem read_ordinary (ordinary : OrdinaryChar c) (visible : Scan.isBlank c = false) (symbols : SymbolTable)
    (first : Bool) (line : List Char) :
    ∃ taken, (Lexeme.read symbols first c line).segments = [⟨taken, some (printed taken)⟩] ∧
      taken ++ (Lexeme.read symbols first c line).rest = c :: line ∧ '\x7d' ∉ taken := by
  obtain ⟨kind, reads, -⟩ := read_eq_iff.mp (Eq.refl (Lexeme.read symbols first c line))
  have few := ordinary.opens reads.opens
  generalize Lexeme.read symbols first c line = r at reads
  generalize same : c :: line = source at reads
  cases reads with
  | dimension matched =>
    exact ⟨_, rfl, matched.whole, brace_notMem_dimension matched.matched⟩
  | number matched =>
    refine ⟨_, ?_, matched.whole, brace_notMem_number matched.matched⟩
    rw [printed_eq_self (visible_of_number matched.matched)]
    rfl
  | @point digits rest all ends =>
    have visible' : ∀ d ∈ '.' :: digits, Scan.isBlank d = false :=
      List.forall_mem_cons.mpr ⟨rfl, fun d mem => visible_of_isDigit (all d mem)⟩
    refine ⟨'.' :: digits, ?_, rfl, ?_⟩
    · rw [printed_eq_self visible']
      rfl
    · intro mem
      obtain brace | mem := List.mem_cons.mp mem
      · exact absurd brace (by decide)
      · exact absurd (all _ mem) (by decide)
  | character =>
    cases same
    refine ⟨[c], ?_, rfl, ?_⟩
    · rw [printed_eq_self (List.forall_mem_singleton.mpr visible)]
      rfl
    · intro mem
      obtain rfl := List.mem_singleton.mp mem
      exact ordinary (by decide)
  | _ => exact absurd few (by decide)

/-- What does not take the closing brace stays in front of it. -/
theorem prefix_of_brace {taken rest w tail : List Char} (whole : taken ++ rest = w ++ '\x7d' :: tail)
    (apart : '\x7d' ∉ taken) : ∃ left, w = taken ++ left ∧ rest = left ++ '\x7d' :: tail := by
  obtain ⟨left, rfl, rfl⟩ | ⟨more, rfl, same⟩ := List.append_eq_append_iff.mp whole
  · exact ⟨left, rfl, rfl⟩
  · cases more with
    | nil => exact ⟨[], by simp, same.symm⟩
    | cons d more =>
      obtain rfl := (List.cons.inj same).1
      exact absurd (List.mem_append_right _ List.mem_cons_self) apart

theorem read_brace {c : Char} (brace : c = '\x7b' ∨ c = '\x7d') (line : List Char) :
    Lexeme.read symbols first c line = ⟨[.token [c]], line⟩ := by
  rcases brace with rfl | rfl
  · exact (read_part line rfl (.inr rfl)).2
  · exact read_single rfl (by decide) (fun _ => not_reads rfl) fun _ => not_reads rfl

theorem textsFrom_brace {c : Char} (brace : c = '\x7b' ∨ c = '\x7d') (first : Bool) (tail : List Char) :
    textsFrom symbols first (c :: tail) = String.singleton c :: textsFrom symbols false tail := by
  obtain ⟨line, back, parts⟩ := exists_firstLine tail
  have visible : Scan.isBlank c = false := by rcases brace with rfl | rfl <;> rfl
  rw [textsFrom_lexeme visible first parts, read_brace brace, ← parts.whole]
  rfl

/-- An ordinary text in front of a closing brace. -/
theorem textsFrom_ordinary (symbols : SymbolTable) {w : List Char} (ordinary : ∀ c ∈ w, OrdinaryChar c) (first : Bool)
    (tail : List Char) : ∃ words, Spells w words ∧
      textsFrom symbols first (w ++ '\x7d' :: tail) = words ++ "\x7d" :: textsFrom symbols false tail := by
  induction length : w.length using Nat.strong_induction_on generalizing w first with
  | _ n ih =>
    cases w with
    | nil => exact ⟨[], ⟨nofun, rfl⟩, textsFrom_brace (.inr rfl) first tail⟩
    | cons c w =>
      obtain ⟨here, others⟩ := List.forall_mem_cons.mp ordinary
      cases visible : Scan.isBlank c with
      | true =>
        obtain ⟨first', passed⟩ : ∃ first', textsFrom symbols first (c :: (w ++ '\x7d' :: tail)) =
            textsFrom symbols first' (w ++ '\x7d' :: tail) := textsFrom_blank visible first _
        obtain ⟨words, spells, texts⟩ := ih w.length (by simp [← length]) others first' rfl
        refine ⟨words, ⟨spells.filled, ?_⟩, passed.trans texts⟩
        rw [spells.joined]
        simp [printed, visible]
      | false =>
        obtain ⟨line, back, parts⟩ := exists_firstLine (w ++ '\x7d' :: tail)
        obtain ⟨taken, segments, kept, apart⟩ := read_ordinary here visible symbols first line
        have whole : taken ++ ((Lexeme.read symbols first c line).rest ++ back) = c :: w ++ '\x7d' :: tail := by
          rw [← List.append_assoc, kept, List.cons_append, List.cons_append, parts.whole]
        obtain ⟨left, split, behind⟩ := prefix_of_brace whole apart
        obtain ⟨more, rfl⟩ : ∃ more, taken = c :: more := by
          have shorter := (Lexeme.of_read symbols first c line).2
          cases taken with
          | nil =>
            rw [List.nil_append] at kept
            rw [kept] at shorter
            exact absurd shorter (Nat.lt_irrefl _)
          | cons d more => exact ⟨more, by rw [(List.cons.inj split).1]⟩
        have ordinary' : ∀ d ∈ left, OrdinaryChar d := by
          intro d mem
          apply ordinary
          rw [split]
          exact List.mem_append_right _ mem
        have shorter : left.length < n := by
          rw [← length, split, List.length_append, List.length_cons]
          omega
        obtain ⟨words, spells, texts⟩ := ih left.length shorter ordinary' false rfl
        refine ⟨String.ofList (printed (c :: more)) :: words, ⟨?_, ?_⟩, ?_⟩
        · refine List.forall_mem_cons.mpr ⟨?_, spells.filled⟩
          rw [printed_cons visible]
          simp [← String.toList_inj]
        · rw [List.flatMap_cons, spells.joined, String.toList_ofList, split, printed_append]
        · rw [List.cons_append, textsFrom_lexeme visible first parts, segments, behind, texts]
          rfl

/-- An ordinary text in braces. -/
theorem textsFrom_inBraces (symbols : SymbolTable) {w : List Char} (ordinary : ∀ c ∈ w, OrdinaryChar c) (first : Bool)
    (tail : List Char) : ∃ words, Spells w words ∧
      textsFrom symbols first ('\x7b' :: (w ++ '\x7d' :: tail)) =
        "\x7b" :: (words ++ "\x7d" :: textsFrom symbols false tail) := by
  obtain ⟨words, spells, texts⟩ := textsFrom_ordinary symbols ordinary false tail
  exact ⟨words, spells, by rw [textsFrom_brace (.inl rfl), texts]; rfl⟩

/-- A command that takes nothing along from behind it, and stands for no symbol. -/
structure Alone (name : List Char) : Prop where
  filled : name ≠ []
  letters : name.all Char.isAlpha = true
  apart : String.ofList name ∉ ["begin", "end", "operatorname"] ++ Lexeme.textCommands ++ Lexeme.shortFractions
  font : ¬ "math".toList <+: name

instance (name : List Char) : Decidable (Alone name) :=
  decidable_of_iff (name ≠ [] ∧ name.all Char.isAlpha = true ∧
      String.ofList name ∉ ["begin", "end", "operatorname"] ++ Lexeme.textCommands ++ Lexeme.shortFractions ∧
      ¬ "math".toList <+: name)
    ⟨fun ⟨filled, letters, apart, font⟩ => ⟨filled, letters, apart, font⟩,
      fun alone => ⟨alone.filled, alone.letters, alone.apart, alone.font⟩⟩

namespace Alone

variable {name : List Char} (alone : Alone name)

include alone

theorem read (symbols : SymbolTable) (first : Bool) (line : List Char) :
    Lexeme.read symbols first '\\' (name ++ '\x7b' :: line) = ⟨[.token ('\\' :: name)], '\x7b' :: line⟩ := by
  have command : Scan.Command ('\\' :: (name ++ '\x7b' :: line)) name ('\x7b' :: line) :=
    ⟨alone.filled, List.all_eq_true.mp alone.letters, .cons rfl, rfl⟩
  have apart := alone.apart
  simp only [List.mem_append, not_or] at apart
  refine read_command_again command ?_ ?_ ?_ apart.1.2 fun known => absurd known apart.2
  · rintro c ⟨-, font, -⟩
    exact alone.font font
  · intro known
    refine absurd ?_ apart.1.1
    rcases known with known | known <;> simp [known]
  · intro known
    exact absurd (by simp [known]) apart.1.1

theorem firstLine {tail line back : List Char} (parts : FirstLine tail line back) :
    FirstLine (name ++ '\x7b' :: tail) (name ++ '\x7b' :: line) back := by
  refine ⟨by rw [parts.whole]; simp, fun mem => ?_, parts.ends⟩
  obtain mem | mem := List.mem_append.mp mem
  · exact absurd (List.all_eq_true.mp alone.letters _ mem) (by decide)
  · obtain feed | mem := List.mem_cons.mp mem
    · exact absurd feed (by decide)
    · exact parts.flat mem

end Alone

theorem textsFrom_command {name : List Char} (alone : Alone name) (first : Bool) (tail : List Char) :
    textsFrom symbols first ('\\' :: (name ++ '\x7b' :: tail)) =
      String.ofList ('\\' :: name) :: textsFrom symbols false ('\x7b' :: tail) := by
  obtain ⟨line, back, parts⟩ := exists_firstLine tail
  rw [textsFrom_lexeme rfl first (alone.firstLine parts), alone.read, List.cons_append, ← parts.whole]
  rfl

theorem exists_segments {source line back : List Char} (parts : FirstLine source line back) :
    ∃ more, segments symbols source = lineSegments symbols true line ++ more := by
  cases back with
  | nil => exact ⟨[], by rw [parts.whole, List.append_nil, List.append_nil, segments_flat parts.flat]⟩
  | cons feed rest =>
    obtain rfl : feed = '\n' := by simpa using parts.ends feed rfl
    exact ⟨_, by rw [parts.whole, segments_lines, segments_flat parts.flat, List.append_assoc]⟩

/-- A command at the beginning of a source is its first token. -/
theorem tokens_command {name : List Char} (alone : Alone name) {source : String} {tail : List Char}
    (chars : source.toList = '\\' :: (name ++ '\x7b' :: tail)) : ∃ more, tokens symbols source =
      ⟨String.ofList ('\\' :: name), ⟨0, byteLength ('\\' :: name)⟩⟩ :: more := by
  obtain ⟨line, back, parts⟩ := exists_firstLine tail
  have parts' := alone.firstLine parts
  have whole : FirstLine source.toList ('\\' :: (name ++ '\x7b' :: line)) back :=
    ⟨by rw [chars, parts'.whole]; rfl, by simpa using parts'.flat, parts'.ends⟩
  obtain ⟨more, same⟩ : ∃ more, segments symbols source.toList =
      lineSegments symbols true ('\\' :: (name ++ '\x7b' :: line)) ++ more := exists_segments whole
  rw [tokens, same, lineSegments_lexeme (by decide), alone.read]
  refine ⟨tokensFrom (0 + byteLength ('\\' :: name)) (lineSegments symbols false ('\x7b' :: line) ++ more), ?_⟩
  rw [List.singleton_append, List.cons_append, tokensFrom]
  dsimp only [Segment.token]
  rw [Nat.zero_add]

end FormulaMarkup.Source

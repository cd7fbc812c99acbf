import FormulaMarkup.Proofs.Bytes.Lexing

/-!
Lines. No lexeme goes over a line feed or looks behind one, so the lines of a source are lexed each by
itself; what stands in front of a line only moves the places of its tokens. Main statement: two sources
with a line feed between them have the tokens of the first one and then those of the second one, moved
behind the line feed.
-/
namespace FormulaMarkup

/-- A stretch of source both ends of which have been moved. -/
def Span.moved (f : Nat → Nat) (span : Span) : Span := ⟨f span.start, f span.stop⟩

/-- A token that stands at another place. -/
def Token.moved (f : Nat → Nat) (token : Token) : Token := ⟨token.text, token.span.moved f⟩

@[simp] theorem Token.moved_text (f : Nat → Nat) (token : Token) : (token.moved f).text = token.text := rfl

@[simp] theorem Token.moved_span (f : Nat → Nat) (token : Token) :
    (token.moved f).span = token.span.moved f := rfl

theorem Token.moved_moved (f g : Nat → Nat) (token : Token) :
    (token.moved f).moved g = token.moved fun place => g (f place) := rfl

theorem Token.texts_moved (f : Nat → Nat) (tokens : List Token) :
    (tokens.map (Token.moved f)).map (·.text) = tokens.map (·.text) := by
  rw [List.map_map]
  rfl

namespace Source

/-! ## Lexemes one behind the other -/

section Line

variable {symbols : SymbolTable} {first : Bool}

theorem lineSegments_nil : lineSegments symbols first [] = [] := by
  rw [lineSegments]

theorem lineSegments_blank {c : Char} (blank : Scan.isBlank c) (cs : List Char) :
    lineSegments symbols first (c :: cs) = Segment.gap [c] :: lineSegments symbols first cs := by
  rw [lineSegments, if_pos blank]

theorem lineSegments_lexeme {c : Char} (lexeme : ¬ Scan.isBlank c) (cs : List Char) :
    lineSegments symbols first (c :: cs) = (Lexeme.read symbols first c cs).segments ++
      lineSegments symbols false (Lexeme.read symbols first c cs).rest := by
  rw [lineSegments, if_neg lexeme]

end Line

/-! ## Moved segments -/

/-- Where a stretch of source is moved as a whole, its tokens are. -/
theorem tokensFrom_moved {f : Nat → Nat} (place : Nat) (segments : List Segment)
    (rigid : ∀ n ≤ byteLength (Segment.sourceOf segments), f (place + n) = f place + n) :
    tokensFrom (f place) segments = (tokensFrom place segments).map (Token.moved f) := by
  induction segments generalizing place with
  | nil => rfl
  | cons segment rest ih =>
    obtain ⟨source, text⟩ := segment
    rw [sourceOf_cons, byteLength_append] at rigid
    dsimp only at rigid
    have stop : f (place + byteLength source) = f place + byteLength source := rigid _ (by omega)
    have further : tokensFrom (f place + byteLength source) rest =
        (tokensFrom (place + byteLength source) rest).map (Token.moved f) := by
      rw [← stop]
      apply ih
      intro n within
      rw [Nat.add_assoc, rigid _ (by omega), stop, Nat.add_assoc]
    cases text with
    | none => exact further
    | some text =>
      rw [tokensFrom, tokensFrom, further, List.map_cons, Token.moved, Span.moved, stop]

/-! ## Lines one behind the other -/

theorem intercalate_append {α : Type} (between : List α) {front back : List (List α)} (some : front ≠ [])
    (more : back ≠ []) :
    between.intercalate (front ++ back) = between.intercalate front ++ between ++ between.intercalate back := by
  induction front with
  | nil => contradiction
  | cons line lines ih =>
    cases lines with
    | nil =>
      obtain ⟨next, rest, rfl⟩ := List.exists_cons_of_ne_nil more
      rw [List.singleton_append, List.intercalate_cons_cons, List.intercalate_singleton]
    | cons next rest =>
      rw [List.cons_append, List.cons_append, List.intercalate_cons_cons, ← List.cons_append,
        ih (List.cons_ne_nil next rest), List.intercalate_cons_cons]
      simp only [List.append_assoc]

theorem sourceOf_segments (symbols : SymbolTable) (source : List Char) :
    Segment.sourceOf (segments symbols source) = source := by
  rw [segments, sourceOf_lines, List.intercalate_splitOn]

theorem splitOn_flat {line : List Char} (flat : '\n' ∉ line) : line.splitOn '\n' = [line] :=
  List.splitOnP_eq_singleton fun _ listed => beq_eq_false_iff_ne.mpr fun same => flat (same ▸ listed)

theorem segments_flat {symbols : SymbolTable} {line : List Char} (flat : '\n' ∉ line) : segments symbols line = lineSegments symbols true line := by
  rw [segments, splitOn_flat flat, List.map_singleton, List.intercalate_singleton]

/-- Lines that a line feed parts have nothing to do with each other. -/
theorem segments_lines (symbols : SymbolTable) (front back : List Char) :
    segments symbols (front ++ '\n' :: back) =
      segments symbols front ++ [Segment.gap ['\n']] ++ segments symbols back := by
  have apart : (front ++ '\n' :: back).splitOn '\n' = front.splitOn '\n' ++ back.splitOn '\n' :=
    List.splitOnP_append_cons front back (beq_self_eq_true '\n')
  have lines (source : List Char) : (source.splitOn '\n').map (lineSegments symbols true) ≠ [] :=
    List.map_eq_nil_iff.not.mpr (List.splitOnP_ne_nil _ source)
  rw [segments, apart, List.map_append, intercalate_append _ (lines front) (lines back)]
  rfl

/-- The tokens behind a line feed are those that stand there alone, moved behind it. -/
theorem tokensFrom_lines (symbols : SymbolTable) (front back : List Char) :
    tokensFrom 0 (segments symbols (front ++ '\n' :: back)) =
      tokensFrom 0 (segments symbols front) ++
        (tokensFrom 0 (segments symbols back)).map (Token.moved (byteLength front + 1 + ·)) := by
  have feed : '\n'.utf8Size = 1 := rfl
  have start : 0 + byteLength (front ++ ['\n']) = byteLength front + 1 + 0 := by
    rw [byteLength_append, byteLength_cons, byteLength_nil, feed]
    omega
  have moved := tokensFrom_moved (f := (byteLength front + 1 + ·)) 0 (segments symbols back) fun n _ => by simp
  rw [segments_lines, tokensFrom_append, tokensFrom_append, sourceOf_append, sourceOf_segments, sourceOf_cons,
    sourceOf_nil, List.append_nil]
  change (_ ++ []) ++ tokensFrom (0 + byteLength (front ++ ['\n'])) _ = _
  rw [List.append_nil, start, moved]

theorem tokens_lines (symbols : SymbolTable) (a b : String) :
    tokens symbols (a ++ "\n" ++ b) =
      tokens symbols a ++ (tokens symbols b).map (Token.moved (a.utf8ByteSize + 1 + ·)) := by
  have apart : (a ++ "\n" ++ b).toList = a.toList ++ '\n' :: b.toList := by simp
  have front : byteLength a.toList = a.utf8ByteSize := by rw [byteLength_eq, String.ofList_toList]
  rw [tokens, apart, tokensFrom_lines, front]
  rfl

/-- Two sources with a line feed between them have the tokens of the first one and, moved behind the line
feed, those of the second one. So they do for the lexer that goes over the bytes of the whole source. -/
theorem lines_lexed_apart (symbols : SymbolTable) (a b : String) :
    tokens symbols (a ++ "\n" ++ b) =
        tokens symbols a ++ (tokens symbols b).map (Token.moved (a.utf8ByteSize + 1 + ·)) ∧
      Bytes.tokens? symbols (a ++ "\n" ++ b) = do
        let front ← Bytes.tokens? symbols a
        let back ← Bytes.tokens? symbols b
        return front ++ back.map (Token.moved (a.utf8ByteSize + 1 + ·)) := by
  constructor
  · exact tokens_lines symbols a b
  · rw [Bytes.tokens?_eq, Bytes.tokens?_eq, Bytes.tokens?_eq, tokens_lines]
    rfl

end Source

end FormulaMarkup

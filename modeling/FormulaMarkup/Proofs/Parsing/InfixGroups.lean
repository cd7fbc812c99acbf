import FormulaMarkup.Proofs.Parsing.Enclosed

/-!
Infix fractions. The command takes all nodes that have been read for the sequence around it, and reads all that
follows up to the end of that sequence; the token that ends it is handed back. Main statement: between words
that are accepted on their own an infix fraction splits the source, or the group, into one fraction of the two.
-/
namespace FormulaMarkup

open Wait
open Node (collapse withChildren)

/-- An infix fraction that takes no arguments of its own. -/
structure InfixFraction.Plain (fraction : InfixFraction) : Prop where
  fences : fraction.readsFences = false
  bar : fraction.bar ≠ .argument

/-- The node of an infix fraction without arguments, of what stands before it and behind it. -/
def InfixFraction.node (fraction : InfixFraction) (upper lower : List Node) : Node :=
  { withChildren "\\frac" [collapse upper, collapse lower] with
    delimiter := fraction.fences.map fun (opening, closing) => .pair (some opening) (some closing)
    attributes := if fraction.bar = .zero then [("linethickness", "0")] else [] }

namespace Reader

variable {symbols : SymbolTable} {terminator : Option String} {nodes upper lower : List Node} {c mid after : Cursor}
  {words numerator denominator : List String} {word : String} {rest tail : List Token} {nested : Nested}
  {token : Token} {fraction : InfixFraction} {span : Span} {marker : Option Node} {consumed : Bool}

/-! ## The command -/

theorem infixFences_plain (plain : fraction.Plain) :
    infixFences nested terminator fraction =
      pure (fraction.fences.map fun (opening, closing) => .pair (some opening) (some closing)) := by
  rw [infixFences, plain.fences, if_neg Bool.false_ne_true]

theorem infixBar_plain (plain : fraction.Plain) :
    infixBar nested terminator fraction =
      pure (if fraction.bar = .zero then [("linethickness", "0")] else []) := by
  have bar := plain.bar
  unfold infixBar
  cases named : fraction.bar with
  | natural => rfl
  | zero => rfl
  | argument => exact absurd named bar

/-- Between nodes the command makes one fraction of them, in front of what ends the sequence. -/
theorem infixFraction_plain (plain : fraction.Plain) (before : upper ≠ []) (behind : lower ≠ [])
    (read : remainder nested terminator c = .ok ((lower, marker), after)) :
    infixFraction nested terminator fraction span upper.reverse c =
      .ok (⟨marker.toList ++ [fraction.node upper lower], true⟩, after) := by
  unfold infixFraction
  rw [infixFences_plain plain, infixBar_plain plain, pure_bind, pure_bind, bind_ok read]
  dsimp only
  rw [if_neg (by simp [behind]), if_neg (by simp [before]), List.reverse_reverse]
  rfl

theorem command_infixFraction (found : Shape.of? token.text = some (.infixFraction fraction)) {stack : List Node} :
    command symbols nested terminator token stack = infixFraction nested terminator fraction token.span stack := by
  unfold command shape?
  rw [found]

/-- A sequence that has come to an infix fraction ends with it. -/
theorem unbudgeted_infixFraction (found : Shape.of? token.text = some (.infixFraction fraction))
    (other : token.text ≠ "\\middle") (open' : some token.text ≠ terminator) (plain : fraction.Plain)
    (before : upper ≠ []) (behind : lower ≠ []) (free : c.pending = none) (left : c.tokens = token :: tail)
    (read : remainder (unbudgetedNested symbols) terminator (skip c token tail) = .ok ((lower, marker), after)) :
    unbudgeted symbols terminator .unbounded consumed upper.reverse c =
      .ok (fraction.node upper lower :: marker.toList, after) := by
  have given : Reader.token symbols (unbudgetedNested symbols) terminator token upper.reverse (skip c token tail) =
      .ok (⟨marker.toList ++ [fraction.node upper lower], true⟩, after) := by
    rw [token_shape found other, command_infixFraction found]
    exact infixFraction_plain plain before behind read
  rw [unbudgeted_eq, turn_token free left open' given]
  cases marker with
  | none => rfl
  | some marker => rfl

/-! ## Between words -/

theorem remainder_none (read : optional nested none c = .ok (nodes, after)) :
    remainder nested none c = .ok ((nodes, none), after) := by
  rw [remainder, bind_ok read]
  rfl

theorem remainder_some {closing : String}
    (read : optional nested (some closing) c = .ok (nodes ++ [.leaf closing], after)) :
    remainder nested (some closing) c = .ok ((nodes, some (.leaf closing)), after) := by
  rw [remainder, bind_ok read, List.getLast?_concat]
  dsimp only
  rw [if_pos (by simp [Node.leaf, Node.is]), List.dropLast_concat]
  rfl

/-- In braces the command splits the group, which is one fraction. -/
theorem group_infixFraction (first : Accepted symbols (some Word.closeBrace) false numerator upper)
    (second : Accepted symbols (some Word.closeBrace) true denominator lower)
    (found : Shape.of? word = some (.infixFraction fraction)) (other : word ≠ "\\middle")
    (open' : some word ≠ some Word.closeBrace) (plain : fraction.Plain) (before : upper ≠ [])
    (behind : lower ≠ []) (here : Before c (numerator ++ word :: (denominator ++ [Word.closeBrace])) rest) :
    Gives (Reader.group (unbudgetedNested symbols) Word.closeBrace) c [fraction.node upper lower] rest := by
  obtain ⟨tokens, texts, front⟩ := here.split
  obtain ⟨consumed, mid, left, free, goesOn⟩ :=
    first.goesOn closing_closeBrace before front
  obtain ⟨token, tail, left', rfl, next⟩ := Before.next ⟨free, tokens, texts, left⟩
  obtain ⟨after, read, done, free'⟩ := second.optional closing_closeBrace (by decide) next
  have ends : unbudgeted symbols (some Word.closeBrace) .unbounded consumed upper.reverse mid = _ :=
    unbudgeted_infixFraction found other open' plain before behind free left' (remainder_some read)
  have given : Gives (Reader.optional (unbudgetedNested symbols) (some Word.closeBrace)) c
      ([fraction.node upper lower] ++ [.leaf Word.closeBrace]) rest := by
    refine ⟨after, ?_, done, free'⟩
    rw [optional_eq (here.some_to_read (by simp))]
    exact goesOn.trans ends
  have grouped := gives_stripped given
  rwa [stripped_concat] at grouped

/-- Without braces the command splits the source. -/
theorem unbudgeted_infixFraction_source {runs : Bool} {closing : Option String}
    (first : Accepted symbols none false numerator upper) (second : Accepted symbols closing runs denominator lower)
    (found : Shape.of? word = some (.infixFraction fraction)) (other : word ≠ "\\middle") (plain : fraction.Plain)
    (before : upper ≠ []) (behind : lower ≠ []) (here : Before c (numerator ++ word :: denominator) []) :
    ∃ after, unbudgeted symbols none .unbounded false [] c = .ok ([fraction.node upper lower], after) := by
  obtain ⟨tokens, texts, front⟩ := here.split
  obtain ⟨consumed, mid, left, free, goesOn⟩ := first.goesOn closing_none before front
  obtain ⟨token, tail, left', rfl, next⟩ := Before.next ⟨free, tokens, texts, left⟩
  obtain ⟨tokens', texts', split⟩ := next.words
  rw [List.append_nil] at split
  obtain ⟨after, read⟩ := second.read next.free (split ▸ texts')
  have open' : some token.text ≠ none := Option.some_ne_none _
  exact ⟨after, goesOn.trans (unbudgeted_infixFraction found other open' plain before behind free left'
    (remainder_none read))⟩

end Reader

/-! ## Sources and groups -/

open Reader (Accepted Before OneNode)

/-- The infix fractions without arguments, with the delimiters and the attributes of their nodes. -/
def infixForms : List (String × Option Delimiter × Attributes) := [
  ("\\over", none, []),
  ("\\atop", none, [("linethickness", "0")]),
  ("\\brace", some (.pair (some "\x7b") (some "\x7d")), [("linethickness", "0")]),
  ("\\brack", some (.pair (some "[") (some "]")), [("linethickness", "0")]),
  ("\\choose", some (.pair (some "(") (some ")")), [("linethickness", "0")])]

theorem infixForms_shape {word : String} {delimiter : Option Delimiter} {attributes : Attributes}
    (listed : (word, delimiter, attributes) ∈ infixForms) :
    ∃ fraction : InfixFraction, Shape.of? word = some (.infixFraction fraction) ∧ fraction.Plain ∧
      ∀ upper lower, fraction.node upper lower =
        { withChildren "\\frac" [collapse upper, collapse lower] with delimiter, attributes } := by
  have plain {fraction : InfixFraction} (fences : fraction.readsFences = false) (bar : fraction.bar ≠ .argument) :
      fraction.Plain := ⟨fences, bar⟩
  simp only [infixForms, List.mem_cons, Prod.mk.injEq, List.not_mem_nil, or_false] at listed
  rcases listed with
    ⟨rfl, rfl, rfl⟩ | ⟨rfl, rfl, rfl⟩ | ⟨rfl, rfl, rfl⟩ | ⟨rfl, rfl, rfl⟩ | ⟨rfl, rfl, rfl⟩
  · exact ⟨{ bar := .natural }, by decide +kernel, plain rfl nofun, fun _ _ => rfl⟩
  · exact ⟨{ bar := .zero }, by decide +kernel, plain rfl nofun, fun _ _ => rfl⟩
  · exact ⟨{ bar := .zero, fences := some ("\x7b", "\x7d") }, by decide +kernel, plain rfl nofun, fun _ _ => rfl⟩
  · exact ⟨{ bar := .zero, fences := some ("[", "]") }, by decide +kernel, plain rfl nofun, fun _ _ => rfl⟩
  · exact ⟨{ bar := .zero, fences := some ("(", ")") }, by decide +kernel, plain rfl nofun, fun _ _ => rfl⟩

namespace Formula

variable {symbols : SymbolTable} {numerator denominator : List String} {upper lower : List Node} {word : String}
  {delimiter : Option Delimiter} {attributes : Attributes}

/-- Infix fractions split their group. Between words that are accepted on their own, contained in braces and not
empty, of which those before it hold nothing that runs up to the end of the group, an infix fraction is one
fraction of what they are read to. It is all that there is in a source, or in a group, and behind the group
reading goes on as behind any node. This is where no environment stands in for a closing token. -/
theorem ofTokens?_infixFraction (listed : (word, delimiter, attributes) ∈ infixForms)
    (first : Accepted symbols (some Word.closeBrace) false numerator upper)
    (second : Accepted symbols (some Word.closeBrace) true denominator lower)
    (before : upper ≠ []) (behind : lower ≠ []) :
    let fraction := { withChildren "\\frac" [collapse upper, collapse lower] with delimiter, attributes }
    (∀ tokens stop, tokens.map (·.text) = numerator ++ word :: denominator →
      ofTokens? symbols tokens stop = .ok [fraction]) ∧
    OneNode symbols (inBraces (numerator ++ word :: denominator)) (.braces [fraction]) := by
  obtain ⟨fraction, found, plain, same⟩ := infixForms_shape listed
  have words : ∀ form ∈ infixForms, form.1 ≠ "\\middle" ∧ some form.1 ≠ some Word.closeBrace := by decide
  obtain ⟨other, open'⟩ := words _ listed
  rw [← same upper lower]
  refine ⟨fun tokens stop texts => ?_, ?_⟩
  · have here : Before { tokens, last := ⟨0, 0⟩, stop } (numerator ++ word :: denominator) [] :=
      ⟨rfl, tokens, texts, (List.append_nil _).symm⟩
    have outer : Accepted symbols none false numerator upper :=
      ⟨first.genuine, contained_none first.contained, first.parsed⟩
    obtain ⟨after, given⟩ :=
      Reader.unbudgeted_infixFraction_source outer second found other plain before behind here
    have more : tokens.isEmpty = false := by
      cases tokens with
      | nil => simp at texts
      | cons first rest => rfl
    rw [ofTokens?_eq, unbudgetedTokens?, more, if_neg Bool.false_ne_true, given]
    rfl
  · refine Reader.oneNode_braces fun {c rest} here => ?_
    rw [List.append_assoc, List.cons_append] at here
    exact Reader.group_infixFraction first second found other open' plain before behind here

/-- Fractions nest to the right. -/
theorem ofTokens?_infixFraction_over :
    let numerator := ["x", "^", "2"]
    let denominator := ["b", "\\over", "c"]
    let power := withChildren "^" [.leaf "x", .leaf "2"]
    let inner := withChildren "\\frac" [.leaf "b", .leaf "c"]
    ("\\over", none, []) ∈ infixForms ∧ Accepted .known (some Word.closeBrace) false numerator [power] ∧
      Accepted .known (some Word.closeBrace) true denominator [inner] ∧ [power] ≠ [] ∧ [inner] ≠ [] ∧
      (∀ tokens stop, tokens.map (·.text) = numerator ++ "\\over" :: denominator →
        ofTokens? .known tokens stop = .ok [withChildren "\\frac" [power, inner]]) ∧
      OneNode .known (inBraces (numerator ++ "\\over" :: denominator))
        (.braces [withChildren "\\frac" [power, inner]]) := by
  intro numerator denominator power inner
  have listed : ("\\over", none, []) ∈ infixForms := by decide
  have first : Accepted .known (some Word.closeBrace) false numerator [power] := by
    refine ⟨⟨by decide +kernel, by decide⟩, by decide +kernel, ?_⟩
    exact ⟨Source.tokens .known "x^2", 3, by decide +kernel, by decide +kernel⟩
  have second : Accepted .known (some Word.closeBrace) true denominator [inner] := by
    refine ⟨⟨by decide +kernel, by decide⟩, by decide +kernel, ?_⟩
    exact ⟨Source.tokens .known "b\\over c", 8, by decide +kernel, by decide +kernel⟩
  have before : [power] ≠ [] := List.cons_ne_nil _ _
  have behind : [inner] ≠ [] := List.cons_ne_nil _ _
  obtain ⟨source, group⟩ := ofTokens?_infixFraction listed first second before behind
  exact ⟨listed, first, second, before, behind, source, group⟩

/-- Before a fraction the environment does not close the pair. -/
theorem unpaired_refused_in_fraction :
    let words := ["\\left", "(", "\\begin\x7bright\x7d", "a", "\\end\x7bright\x7d"]
    contained (some Word.closeBrace) false [upTo none] words = true ∧ words.getLast? ≠ some "\\right" ∧
      (Source.tokens .known unpaired).map (·.text) = words ∧
      ofTokens? .known (Source.tokens .known unpaired) 31 = .ok [unpairedNode] ∧
      contained (some Word.closeBrace) true [upTo none] ["b"] = true ∧
      ofTokens? .known (Source.tokens .known "b") 1 = .ok [.leaf "b"] ∧
      (Source.tokens .known (unpaired ++ "\\over b")).map (·.text) = words ++ ["\\over", "b"] ∧
      ofTokens? .known (Source.tokens .known (unpaired ++ "\\over b")) 38 =
        .error (.refused ⟨⟨0, 5⟩, .unbalancedDelimiter .left⟩) := by
  decide +kernel

end Formula

end FormulaMarkup

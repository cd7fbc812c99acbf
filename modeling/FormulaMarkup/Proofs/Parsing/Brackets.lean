import FormulaMarkup.Formula.Reader
import FormulaMarkup.Formula.Shape

/-!
Brackets: what the tokens alone say about which sequence a token closes. A stack of waits tells what
is being waited for, the innermost first; every token moves it on. No node is built here and nothing
is owed, so that this says what it means that a sequence has been closed, independently of how it is
read.
-/
namespace FormulaMarkup

/-- What is waited for. -/
inductive Wait where
  /-- The token that closes a sequence; none for the whole source. -/
  | upTo (closing : Option String)
  /-- One token, whatever it is. -/
  | raw
  /-- A delimiter: one token, or a text in braces. -/
  | fence
  /-- The brace that closes a text. -/
  | text
  /-- A bracket, if one follows. -/
  | bracket
  deriving Repr, DecidableEq

namespace Wait

/-- The end of the environment that a token starts. -/
def ending (header : String) : String :=
  Word.environmentEnd ++ (Word.inside? Word.environmentStart header).getD "" ++ Word.closeBrace

/-- What the arguments of a command begin with, as far as they are no nodes. -/
def ofShape : Option Shape → List Wait
  | some .labelledArrow | some .squareRoot => [bracket]
  | some .root => [upTo (some "\\of")]
  | some .color | some .style | some .rawText | some .link => [raw]
  | some .generalFraction => [fence, fence]
  | some (.infixFraction fraction) => if fraction.readsFences then [fence, fence] else []
  | _ => []

/-- What a token that closes nothing makes a sequence wait for. -/
def opened (token : String) : List Wait :=
  if Word.begins Word.environmentStart token then [upTo (some (ending token))]
  else if token = "\\left" then [raw, upTo (some "\\right")]
  else if token = Word.openBrace then [upTo (some Word.closeBrace)]
  else ofShape (Shape.of? token)

/-- What is waited for behind a token; nothing when no token may follow. A `\right` takes its
delimiter along. -/
def advance : List Wait → String → Option (List Wait)
  | [], _ => none
  | upTo closing :: below, token =>
    if some token = closing then some (if token = "\\right" then raw :: below else below)
    else some (opened token ++ upTo closing :: below)
  | raw :: below, _ => some below
  | fence :: below, token => some (if token = Word.openBrace then text :: below else below)
  | text :: below, token => some (if token = Word.closeBrace then below else text :: below)
  | bracket :: below, token =>
    if token = "[" then some (upTo (some "]") :: below) else advance below token

/-- What is waited for behind a list of tokens. -/
def scan : List Wait → List String → Option (List Wait)
  | waits, [] => some waits
  | waits, token :: rest => (advance waits token).bind fun next => scan next rest

theorem scan_append (waits : List Wait) (front back : List String) :
    scan waits (front ++ back) = (scan waits front).bind fun next => scan next back := by
  induction front generalizing waits with
  | nil => rfl
  | cons token rest ih =>
    simp only [List.cons_append, scan]
    cases advance waits token with
    | none => rfl
    | some next => exact ih next

/-- Whether a list of tokens goes up to the token that closes a sequence, and not further. -/
def closes (closing : Option String) (tokens : List String) : Bool :=
  scan [upTo closing] tokens = some [] || scan [upTo closing] tokens = some [raw]

/-! ## Tokens that close -/

/-- The tokens that the parser ends a sequence at. -/
def Closing (closing : Option String) : Prop :=
  ∀ text, closing = some text →
    text ∈ [Word.closeBrace, "]", "\\of", "\\right"] ∨ Word.begins Word.environmentEnd text = true

theorem closing_none : Closing none := by
  intro text absurd
  cases absurd

theorem closing_of_mem {text : String} (known : text ∈ [Word.closeBrace, "]", "\\of", "\\right"]) :
    Closing (some text) := by
  rintro _ ⟨⟩
  exact .inl known

theorem closing_ending (header : String) : Closing (some (ending header)) := by
  rintro _ ⟨⟩
  refine .inr ?_
  simp [ending, Word.begins, String.toList_append, List.append_assoc]

/-- No command that begins with an n is a terminator. -/
theorem Closing.ne_of_start {closing : Option String} (known : Closing closing) {token : String}
    {rest : List Char} (start : token.toList = '\\' :: 'n' :: rest) : some token ≠ closing := by
  rintro rfl
  rcases known token rfl with named | ends
  · simp only [List.mem_cons, List.not_mem_nil, or_false] at named
    rcases named with rfl | rfl | rfl | rfl <;> cases start
  · rw [Word.begins, start] at ends
    cases ends

/-- A token that the parser ends no sequence at. -/
theorem Closing.ne_of {closing : Option String} (known : Closing closing) {token : String}
    (other : token ∉ [Word.closeBrace, "]", "\\of", "\\right"])
    (inside : Word.begins Word.environmentEnd token = false) : some token ≠ closing := by
  rintro rfl
  rcases known token rfl with named | ends
  · exact other named
  · rw [inside] at ends
    cases ends

theorem Closing.ne_openBrace {closing : Option String} (known : Closing closing) :
    some Word.openBrace ≠ closing :=
  known.ne_of (by decide) (by decide)

end Wait

end FormulaMarkup

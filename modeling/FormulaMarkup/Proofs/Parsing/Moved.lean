import FormulaMarkup.Proofs.Parsing.Coupling
import FormulaMarkup.Proofs.Parsing.Success
import FormulaMarkup.Proofs.Source.Lines

/-!
Moved places. The parser carries places along and gives them back in errors, and does nothing else with
them. So it commutes with any map of places: on tokens that have been moved it gives the same nodes, or
refuses for the same cause at the moved place. Main statement: `ofTokens?_moved`.
-/
namespace FormulaMarkup

/-- An error at another place. -/
def FormulaError.moved (f : Nat → Nat) (e : FormulaError) : FormulaError := ⟨e.span.moved f, e.cause⟩

def Failure.moved (f : Nat → Nat) : Failure → Failure
  | .refused e => .refused (e.moved f)
  | .exhausted => .exhausted

/-- A cursor in a source whose places have all been moved. -/
def Cursor.moved (f : Nat → Nat) (c : Cursor) : Cursor :=
  { tokens := c.tokens.map (Token.moved f), last := c.last.moved f, stop := f c.stop, pending := c.pending }

namespace Reader

variable {α β : Type}

/-- What a reader gives, at other places. -/
def movedRun (f : Nat → Nat) : Except Failure (α × Cursor) → Except Failure (α × Cursor)
  | .ok (a, after) => .ok (a, after.moved f)
  | .error failure => .error (failure.moved f)

/-- Where all places have been moved, the second reader does what the first one does. -/
def Commutes (f : Nat → Nat) (r s : Reader α) : Prop := ∀ c : Cursor, s (c.moved f) = movedRun f (r c)

namespace Commutes

variable {f : Nat → Nat}

theorem pure (a : α) : Commutes f (Pure.pure a) (Pure.pure a) := fun _ => rfl

theorem bind {r s : Reader α} {g h : α → Reader β} (first : Commutes f r s)
    (andThen : ∀ a, Commutes f (g a) (h a)) : Commutes f (r >>= g) (s >>= h) := by
  intro c
  have moved := first c
  cases given : r c with
  | error failure =>
    rw [given] at moved
    rw [bind_error given, bind_error moved]
    rfl
  | ok result =>
    obtain ⟨a, after⟩ := result
    rw [given] at moved
    rw [bind_ok given, bind_ok moved]
    exact andThen a after

theorem refuse (span : Span) (cause : Cause) :
    Commutes f (Reader.refuse span cause : Reader α) (Reader.refuse (span.moved f) cause) :=
  fun _ => rfl

theorem refuseLast (cause : Cause) :
    Commutes f (lastSpan >>= fun span => (Reader.refuse span cause : Reader α))
      (lastSpan >>= fun span => Reader.refuse span cause) :=
  fun _ => rfl

theorem refuseNext (cause : Cause) :
    Commutes f (nextSpan >>= fun span => (Reader.refuse span cause : Reader α))
      (nextSpan >>= fun span => Reader.refuse span cause) := by
  rintro ⟨tokens, last, stop, pending⟩
  cases tokens <;> rfl

theorem head?_moved (c : Cursor) (p : String → Bool) :
    ((c.moved f).tokens.head?.any fun token => p token.text) = c.tokens.head?.any fun token => p token.text := by
  rw [Cursor.moved, List.head?_map, Option.any_map]
  rfl

theorem pending_moved (c : Cursor) : (c.moved f).pending = c.pending := rfl

theorem nextIs (text : String) : Commutes f (Reader.nextIs text) (Reader.nextIs text) := by
  intro c
  rw [nextIs_ok, nextIs_ok, head?_moved c (· == text)]
  rfl

theorem next {g h : Option Token → Reader α} (nothing : Commutes f (g none) (h none))
    (andThen : ∀ token : Token, Commutes f (g (some token)) (h (some (token.moved f)))) :
    Commutes f (next? >>= g) (next? >>= h) := by
  intro c
  cases left : c.tokens with
  | nil =>
    have left' : (c.moved f).tokens = [] := by rw [Cursor.moved, left, List.map_nil]
    rw [bind_ok (next?_nil left), bind_ok (next?_nil left')]
    exact nothing c
  | cons token rest =>
    have left' : (c.moved f).tokens = token.moved f :: rest.map (Token.moved f) := by
      rw [Cursor.moved, left, List.map_cons]
    rw [bind_ok (next?_cons left), bind_ok (next?_cons left')]
    exact andThen token { c with tokens := rest, last := token.span }

theorem bracedText : Commutes f Reader.bracedText Reader.bracedText := by
  intro c
  have inner : (c.moved f).tokens.takeWhile (·.text != Word.closeBrace) =
      (c.tokens.takeWhile (·.text != Word.closeBrace)).map (Token.moved f) := by
    rw [Cursor.moved, List.takeWhile_map]
    rfl
  unfold Reader.bracedText
  dsimp only
  rw [inner, Token.texts_moved, List.length_map, Cursor.moved, movedRun, Cursor.moved, ← List.map_take,
    ← List.map_drop, List.getLast?_map, Option.map_map]
  cases (c.tokens.take _).getLast? <;> rfl

theorem optional {nested nested' : Nested} {terminator : Option String}
    (sequence : Commutes f (nested.sequence terminator .unbounded) (nested'.sequence terminator .unbounded)) :
    Commutes f (Reader.optional nested terminator) (Reader.optional nested' terminator) := by
  intro c
  have empty : (c.moved f).tokens.isEmpty = c.tokens.isEmpty := by rw [Cursor.moved, List.isEmpty_map]
  unfold Reader.optional
  rw [bind_ok (get_ok c), bind_ok (get_ok (c.moved f)), empty, pending_moved]
  split
  · rfl
  · exact sequence c

theorem rawArgument (terminator : Option String) :
    Commutes f (Reader.rawArgument terminator) (Reader.rawArgument terminator) := by
  intro c
  unfold Reader.rawArgument
  rw [bind_ok (get_ok c), bind_ok (get_ok (c.moved f)), head?_moved c fun text => some text == terminator,
    pending_moved]
  split
  · exact refuseNext _ c
  · exact next (refuseNext _) (fun token => pure token.text) c

theorem coupling : Coupling (fun span span' => span' = span.moved f) (Commutes f) where
  pure := pure
  bind := bind
  refuse := by
    rintro _ span _ cause rfl _
    exact refuse span cause
  refuseLast _ := refuseLast _
  nextIs := nextIs
  next nothing andThen := next nothing fun token => andThen token (token.moved f) rfl
  bracedText := bracedText
  optional := optional

variable {terminator : Option String} {limit : Limit} {consumed : Bool} {stack : List Node}

theorem close : Commutes f (Reader.close terminator limit consumed stack)
    (Reader.close terminator limit consumed stack) := by
  have owe (marker : Node) : Commutes f (Reader.owe marker) (Reader.owe marker) := fun _ => rfl
  unfold Reader.close
  split
  · exact refuseNext _
  · split
    · exact pure _
    · dsimp only
      split
      · split
        · exact (owe _).bind fun _ => pure _
        · exact refuseLast _
      · split
        · exact refuseLast _
        · exact pure _

theorem marker (text : String) : Commutes f (Reader.marker text) (Reader.marker text) := by
  unfold Reader.marker
  split
  · exact next (pure _) fun token => pure _
  · exact pure _

/-- A turn commutes if the steps and the turns behind them do. -/
theorem turn {step step' : Token → List Node → Reader Progress}
    {again again' : List Node → Reader (List Node)}
    (steps : ∀ token stack, Commutes f (step token stack) (step' (token.moved f) stack))
    (goesOn : ∀ stack, Commutes f (again stack) (again' stack)) :
    Commutes f (Reader.turn terminator limit step again consumed stack)
      (Reader.turn terminator limit step' again' consumed stack) := by
  have takePending : Commutes f Reader.takePending Reader.takePending := fun _ => rfl
  unfold Reader.turn
  refine takePending.bind fun owed => ?_
  split
  · split
    · exact close
    · exact refuseLast _
  · refine next close fun token => ?_
    dsimp only
    rw [Token.moved_text]
    split
    · split
      · exact (marker _).bind fun _ => close
      · exact refuse _ _
    · refine (steps token stack).bind fun progress => ?_
      split
      · exact close
      · exact goesOn progress.stack

/-- A sequence is read alike wherever its tokens have been moved. -/
theorem sequence (symbols : SymbolTable) (budget : Nat) :
    Commutes f (Reader.sequence symbols terminator limit budget consumed stack)
      (Reader.sequence symbols terminator limit budget consumed stack) := by
  induction budget generalizing terminator limit consumed stack with
  | zero => exact fun _ => rfl
  | succ budget ih =>
    have nested : CoupledNested (Commutes f) (nestedAt symbols budget) (nestedAt symbols budget) :=
      ⟨rawArgument, fun terminator limit => ih⟩
    have steps (token : Token) (stack : List Node) :
        Commutes f (Reader.token symbols (nestedAt symbols budget) terminator token stack)
          (Reader.token symbols (nestedAt symbols budget) terminator (token.moved f) stack) := by
      rcases coupling.token nested terminator symbols (Token.moved_text f token).symm
        (Token.moved_span f token) stack with ⟨cause, -, refused, refused'⟩ | commutes
      · rw [refused, refused']
        exact refuse token.span cause
      · exact commutes
    exact turn steps fun stack => ih

end Commutes

end Reader

namespace Formula

/-- Tokens that have been moved are parsed to the same nodes, or refused at the moved place. -/
theorem ofTokens?_moved (symbols : SymbolTable) {f : Nat → Nat} (fixed : f 0 = 0) (tokens : List Token)
    (stop : Nat) :
    ofTokens? symbols (tokens.map (Token.moved f)) (f stop) =
      (ofTokens? symbols tokens stop).mapError (Failure.moved f) := by
  have start : ({ tokens := tokens.map (Token.moved f), last := ⟨0, 0⟩, stop := f stop } : Cursor) =
      ({ tokens, last := ⟨0, 0⟩, stop } : Cursor).moved f := by
    rw [Cursor.moved, Span.moved, fixed]
  unfold ofTokens?
  dsimp only
  rw [List.isEmpty_map, List.length_map, start]
  split
  · rfl
  · have commutes : Reader.Commutes f (Reader.sequence symbols none .unbounded (tokens.length + 1) false [])
        (Reader.sequence symbols none .unbounded (tokens.length + 1) false []) :=
      Reader.Commutes.sequence symbols (tokens.length + 1)
    have moved := commutes { tokens, last := ⟨0, 0⟩, stop }
    rw [StateT.run, StateT.run, moved]
    cases Reader.sequence symbols none .unbounded (tokens.length + 1) false []
      { tokens, last := ⟨0, 0⟩, stop } <;> rfl

/-- Two sources with the same tokens, but for places that have been moved, are parsed alike. -/
theorem parse_moved (symbols : SymbolTable) {f : Nat → Nat} (fixed : f 0 = 0) {source moved : String}
    (tokens : Source.tokens symbols moved = (Source.tokens symbols source).map (Token.moved f))
    (stop : moved.utf8ByteSize = f source.utf8ByteSize) :
    parse symbols moved = (parse symbols source).mapError (FormulaError.moved f) := by
  unfold parse
  dsimp only
  rw [tokens, stop, ofTokens?_moved symbols fixed]
  cases ofTokens? symbols (Source.tokens symbols source) source.utf8ByteSize with
  | ok nodes => rfl
  | error failure => cases failure <;> rfl

end Formula

end FormulaMarkup

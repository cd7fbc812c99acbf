import Mathlib.Data.List.Forall2
import FormulaMarkup.Proofs.Parsing.Termination

/-!
Prompt errors. A reader refuses its own token for a prompt cause before it has seen another one, so
the tokens behind have no part in it. Two runs are compared over tokens that are alike up to some
point: as long as one run is ahead of that point, the other one does the same, and behind it no error
is prompt but those of the tokens there. Main statement: sources with the same tokens up to the one
that is refused are refused for the same cause and at the same place.
-/
namespace FormulaMarkup

namespace Reader

/-! ## Tokens that are alike up to a point -/

/-- Tokens with the same text, at places that belong to each other. -/
def Alike (spans : Span → Span → Prop) (token token' : Token) : Prop :=
  token.text = token'.text ∧ spans token.span token'.span

/-- Tokens that are alike, the next one at least, in front of the late ones of each run. -/
inductive Ahead (spans : Span → Span → Prop) (late late' : List Token) :
    List Token → List Token → Prop
  | last {token token' : Token} (alike : Alike spans token token') :
    Ahead spans late late' (token :: late) (token' :: late')
  | cons {token token' : Token} {rest rest' : List Token} (alike : Alike spans token token')
    (ahead : Ahead spans late late' rest rest') :
    Ahead spans late late' (token :: rest) (token' :: rest')

theorem ahead_append {spans : Span → Span → Prop} (late late' : List Token)
    {tokens tokens' : List Token} (nonempty : tokens ≠ []) (alike : List.Forall₂ (Alike spans) tokens tokens') :
    Ahead spans late late' (tokens ++ late) (tokens' ++ late') := by
  induction alike with
  | nil => exact absurd rfl nonempty
  | @cons token token' rest rest' first others ih =>
    cases rest with
    | nil =>
      cases others
      exact .last first
    | cons second rest => exact .cons first (ih (List.cons_ne_nil second rest))

/-- The next tokens are alike, and behind them are the late ones, or tokens that are alike again. -/
theorem Ahead.split {spans : Span → Span → Prop} {late late' tokens tokens' : List Token}
    (ahead : Ahead spans late late' tokens tokens') :
    ∃ token token' rest rest', tokens = token :: rest ∧ tokens' = token' :: rest' ∧
      Alike spans token token' ∧ (rest <:+ late ∨ Ahead spans late late' rest rest') := by
  cases ahead with
  | last alike => exact ⟨_, _, _, _, rfl, rfl, alike, .inl (List.suffix_refl late)⟩
  | cons alike behind => exact ⟨_, _, _, _, rfl, rfl, alike, .inr behind⟩

/-- Both runs take the same text up to a closing brace, if the first one does not come to the late
tokens. -/
theorem Ahead.behind_braced {spans : Span → Span → Prop} {late late' tokens tokens' : List Token}
    (ahead : Ahead spans late late' tokens tokens') :
    let inner := tokens.takeWhile (·.text != Word.closeBrace)
    let inner' := tokens'.takeWhile (·.text != Word.closeBrace)
    tokens.drop (inner.length + 1) <:+ late ∨
      inner.map (·.text) = inner'.map (·.text) ∧
        Ahead spans late late' (tokens.drop (inner.length + 1)) (tokens'.drop (inner'.length + 1)) := by
  dsimp only
  induction ahead with
  | last alike =>
    rw [List.drop_succ_cons]
    exact .inl (List.drop_suffix _ _)
  | @cons token token' rest rest' alike ahead ih =>
    rw [List.takeWhile_cons, List.takeWhile_cons, ← alike.1]
    split
    · rcases ih with lost | ⟨texts, behind⟩
      · exact .inl lost
      · refine .inr ⟨?_, behind⟩
        rw [List.map_cons, List.map_cons, alike.1, texts]
    · exact .inr ⟨rfl, ahead⟩

/-- Two cursors that are ahead of the late tokens. -/
structure Abreast (spans : Span → Span → Prop) (late late' : List Token) (c d : Cursor) : Prop where
  tokens : Ahead spans late late' c.tokens d.tokens
  pending : c.pending = d.pending

/-! ## What runs give -/

/-- What a run gives that has come to the late tokens, or has failed for a cause that is not prompt. -/
def Lost {α : Type} (late : List Token) : Except Failure (α × Cursor) → Prop
  | .ok (_, after) => after.tokens <:+ late
  | .error (.refused e) => e.cause.isPrompt = true → ∃ token ∈ late, e.span = token.span
  | .error .exhausted => True

/-- What two runs give that are ahead of the late tokens. -/
inductive Together {α : Type} (spans : Span → Span → Prop) (late late' : List Token) :
    Except Failure (α × Cursor) → Except Failure (α × Cursor) → Prop
  | ok (a : α) {c d : Cursor} (abreast : Abreast spans late late' c d) :
    Together spans late late' (.ok (a, c)) (.ok (a, d))
  | refused {span span' : Span} (cause : Cause) (places : spans span span') :
    Together spans late late' (.error (.refused ⟨span, cause⟩)) (.error (.refused ⟨span', cause⟩))

/-- As long as the first of two readers is ahead of the late tokens, the second one does the same. -/
structure Decided {α : Type} (spans : Span → Span → Prop) (late late' : List Token)
    (r s : Reader α) : Prop where
  lost : ∀ {c}, c.tokens <:+ late → Lost late (r c)
  ahead : ∀ {c d}, Abreast spans late late' c d → Lost late (r c) ∨ Together spans late late' (r c) (s d)

variable {spans : Span → Span → Prop} {late late' : List Token}

theorem Lost.refuse {α : Type} {span : Span} {cause : Cause} {c : Cursor}
    (slow : cause.isPrompt = false) : Lost late ((Reader.refuse span cause : Reader α) c) := by
  intro prompt
  rw [slow] at prompt
  cases prompt

theorem Lost.bind {α β : Type} {r : Reader α} {f : α → Reader β} {c : Cursor}
    (first : Lost late (r c))
    (andThen : ∀ a {after : Cursor}, after.tokens <:+ late → Lost late (f a after)) :
    Lost late ((r >>= f) c) := by
  cases given : r c with
  | ok result =>
    obtain ⟨a, after⟩ := result
    rw [given] at first
    rw [bind_ok given]
    exact andThen a first
  | error failure =>
    rw [given] at first
    rw [bind_error given]
    cases failure with
    | refused e => exact first
    | exhausted => trivial

namespace Decided

variable {α β : Type}

theorem pure (a : α) : Decided spans late late' (Pure.pure a) (Pure.pure a) where
  lost within := within
  ahead abreast := .inr (.ok a abreast)

theorem bind {r s : Reader α} {f g : α → Reader β} (first : Decided spans late late' r s)
    (andThen : ∀ a, Decided spans late late' (f a) (g a)) :
    Decided spans late late' (r >>= f) (s >>= g) := by
  constructor
  · exact fun within => (first.lost within).bind fun a _ => (andThen a).lost
  · intro c d abreast
    rcases first.ahead abreast with lost | together
    · exact .inl (lost.bind fun a _ => (andThen a).lost)
    · generalize given : r c = x at together
      generalize given' : s d = y at together
      cases together with
      | ok a abreast =>
        rw [bind_ok given, bind_ok given']
        exact (andThen a).ahead abreast
      | refused cause places =>
        rw [bind_error given, bind_error given']
        exact .inr (.refused cause places)

theorem refuse {span span' : Span} {cause : Cause} (slow : cause.isPrompt = false) :
    Decided spans late late' (Reader.refuse span cause : Reader α) (Reader.refuse span' cause) where
  lost _ := .refuse slow
  ahead _ := .inl (.refuse slow)

theorem refuseLast {cause : Cause} (slow : cause.isPrompt = false) :
    Decided spans late late' (lastSpan >>= fun span => (Reader.refuse span cause : Reader α))
      (lastSpan >>= fun span => Reader.refuse span cause) where
  lost {c} _ := Lost.refuse (c := c) slow
  ahead {c _} _ := .inl (Lost.refuse (c := c) slow)

theorem refuseNext {cause : Cause} (slow : cause.isPrompt = false) :
    Decided spans late late' (nextSpan >>= fun span => (Reader.refuse span cause : Reader α))
      (nextSpan >>= fun span => Reader.refuse span cause) := by
  have lost (c : Cursor) :
      Lost late ((nextSpan >>= fun span => (Reader.refuse span cause : Reader α)) c) := by
    obtain ⟨span, given⟩ := nextSpan_ok c
    rw [bind_ok given]
    exact .refuse slow
  exact ⟨fun _ => lost _, fun _ => .inl (lost _)⟩

/-- The next token is refused at once by both readers, or they go on behind it. -/
theorem next {f g : Option Token → Reader α} (nothing : Decided spans late late' (f none) (g none))
    (andThen : ∀ token token' : Token, token.text = token'.text →
      RefuseBoth token.span token'.span (f (some token)) (g (some token')) ∨
        Decided spans late late' (f (some token)) (g (some token'))) :
    Decided spans late late' (next? >>= f) (next? >>= g) := by
  constructor
  · intro c within
    cases left : c.tokens with
    | nil =>
      rw [bind_ok (next?_nil left)]
      exact nothing.lost within
    | cons token rest =>
      rw [left] at within
      rw [bind_ok (next?_cons left)]
      rcases andThen token token rfl with ⟨cause, -, given, -⟩ | decided
      · rw [given]
        exact fun _ => ⟨token, within.subset (List.mem_cons_self ..), rfl⟩
      · exact decided.lost ((List.suffix_cons token rest).trans within)
  · rintro c d ⟨ahead, pending⟩
    obtain ⟨token, token', rest, rest', left, left', ⟨same, places⟩, behind⟩ := ahead.split
    rw [bind_ok (next?_cons left), bind_ok (next?_cons left')]
    rcases andThen token token' same with ⟨cause, -, given, given'⟩ | decided
    · rw [given, given']
      exact .inr (.refused cause places)
    · rcases behind with within | behind
      · exact .inl (decided.lost within)
      · exact decided.ahead ⟨behind, pending⟩

theorem takePending {f g : Option Node → Reader α}
    (andThen : ∀ pending, Decided spans late late' (f pending) (g pending)) :
    Decided spans late late' (Reader.takePending >>= f) (Reader.takePending >>= g) where
  lost {c} within := (andThen c.pending).lost within
  ahead {c d} abreast := by
    have taken (c : Cursor) :
        Reader.takePending c = .ok (c.pending, { c with pending := none }) := rfl
    rw [bind_ok (taken c), bind_ok (taken d), ← abreast.pending]
    exact (andThen c.pending).ahead ⟨abreast.tokens, rfl⟩

theorem nextIs (text : String) :
    Decided spans late late' (Reader.nextIs text) (Reader.nextIs text) := by
  constructor
  · intro c within
    rw [nextIs_ok]
    exact within
  · rintro c d abreast
    obtain ⟨token, token', rest, rest', left, left', ⟨same, -⟩, -⟩ := abreast.tokens.split
    have equal : d.tokens.head?.any (·.text == text) = c.tokens.head?.any (·.text == text) := by
      rw [left, left', List.head?_cons, List.head?_cons, Option.any_some, Option.any_some, same]
    rw [nextIs_ok, nextIs_ok, equal]
    exact .inr (.ok _ abreast)

theorem optional {nested nested' : Nested} {terminator : Option String}
    (decided : Decided spans late late' (nested.sequence terminator .unbounded)
      (nested'.sequence terminator .unbounded)) :
    Decided spans late late' (Reader.optional nested terminator)
      (Reader.optional nested' terminator) := by
  constructor
  · intro c within
    unfold Reader.optional
    rw [bind_ok (get_ok c)]
    split
    · exact within
    · exact decided.lost within
  · intro c d abreast
    obtain ⟨token, token', rest, rest', left, left', -, -⟩ := abreast.tokens.split
    unfold Reader.optional
    rw [bind_ok (get_ok c), bind_ok (get_ok d), left, left']
    simpa using decided.ahead abreast

theorem rawArgument (terminator : Option String) :
    Decided spans late late' (Reader.rawArgument terminator) (Reader.rawArgument terminator) := by
  have taken {f : Option Token → Reader String} (first : ∀ token, f (some token) = Pure.pure token.text)
      (nothing : f none = nextSpan >>= fun span => Reader.refuse span .noTokens) :
      Decided spans late late' (next? >>= f) (next? >>= f) := by
    refine next ?_ fun token token' same => .inr ?_
    · rw [nothing]
      exact refuseNext rfl
    · rw [first, first, same]
      exact pure _
  have refused : Decided spans late late'
      (nextSpan >>= fun span => (Reader.refuse span .missingArgument : Reader String))
      (nextSpan >>= fun span => Reader.refuse span .missingArgument) := refuseNext rfl
  constructor
  · intro c within
    unfold Reader.rawArgument
    rw [bind_ok (get_ok c)]
    split
    · exact refused.lost within
    · exact Decided.lost (taken (fun _ => rfl) rfl) within
  · intro c d abreast
    obtain ⟨token, token', rest, rest', left, left', ⟨same, -⟩, -⟩ := abreast.tokens.split
    have equal : d.tokens.head?.any (fun token => some token.text == terminator) =
        c.tokens.head?.any fun token => some token.text == terminator := by
      rw [left, left', List.head?_cons, List.head?_cons, Option.any_some, Option.any_some, same]
    unfold Reader.rawArgument
    rw [bind_ok (get_ok c), bind_ok (get_ok d), ← abreast.pending, equal]
    split
    · exact refused.ahead abreast
    · exact Decided.ahead (taken (fun _ => rfl) rfl) abreast

theorem bracedText : Decided spans late late' Reader.bracedText Reader.bracedText := by
  constructor
  · exact fun within => (List.drop_suffix _ _).trans within
  · intro c d abreast
    unfold Reader.bracedText
    rcases abreast.tokens.behind_braced with lost | ⟨texts, ahead⟩
    · exact .inl lost
    · dsimp only
      rw [texts]
      exact .inr (.ok _ ⟨ahead, abreast.pending⟩)

theorem coupling : Coupling (fun _ _ => True) (Decided spans late late') where
  pure := pure
  bind := bind
  refuse _ := refuse
  refuseLast := refuseLast
  nextIs := nextIs
  next nothing andThen := next nothing fun token token' same => .inr (andThen token token' same)
  bracedText := bracedText
  optional := optional

/-! ## Turns and sequences -/

variable {terminator : Option String} {limit : Limit} {consumed : Bool} {stack : List Node}

theorem owe (marker : Node) : Decided spans late late' (Reader.owe marker) (Reader.owe marker) where
  lost within := within
  ahead abreast := .inr (.ok () ⟨abreast.tokens, rfl⟩)

theorem close : Decided spans late late' (Reader.close terminator limit consumed stack)
    (Reader.close terminator limit consumed stack) := by
  unfold Reader.close
  split
  · exact refuseNext rfl
  · split
    · exact pure _
    · dsimp only
      split
      · split
        · exact (owe _).bind fun _ => pure _
        · exact refuseLast rfl
      · split
        · exact refuseLast rfl
        · exact pure _

theorem marker (text : String) :
    Decided spans late late' (Reader.marker text) (Reader.marker text) := by
  unfold Reader.marker
  split
  · refine next (pure _) fun token token' same => .inr ?_
    rw [Option.map_some, Option.map_some, same]
    exact pure _
  · exact pure _

/-- A turn takes its token before its step does anything, and a step that refuses it at once does so
in both runs. -/
theorem turn {step step' : Token → List Node → Reader Progress}
    {again again' : List Node → Reader (List Node)}
    (steps : ∀ token token' : Token, token.text = token'.text → ∀ stack,
      RefuseBoth token.span token'.span (step token stack) (step' token' stack) ∨
        Decided spans late late' (step token stack) (step' token' stack))
    (goesOn : ∀ stack, Decided spans late late' (again stack) (again' stack)) :
    Decided spans late late' (Reader.turn terminator limit step again consumed stack)
      (Reader.turn terminator limit step' again' consumed stack) := by
  unfold Reader.turn
  refine takePending fun owed => ?_
  split
  · split
    · exact close
    · exact refuseLast rfl
  · refine next close fun token token' same => ?_
    dsimp only
    rw [← same]
    split
    · split
      · exact .inr ((marker _).bind fun _ => close)
      · exact .inr (refuse rfl)
    · rcases steps token token' same stack with refused | decided
      · exact .inl refused.bind
      · refine .inr (decided.bind fun progress => ?_)
        split
        · exact close
        · exact goesOn progress.stack

/-- A run with a budget decides what one without does. -/
theorem sequence (symbols : SymbolTable) (budget : Nat) :
    Decided spans late late' (Reader.sequence symbols terminator limit budget consumed stack)
      (unbudgeted symbols terminator limit consumed stack) := by
  induction budget generalizing terminator limit consumed stack with
  | zero => exact ⟨fun _ => trivial, fun _ => .inl trivial⟩
  | succ budget ih =>
    have plain : unbudgeted symbols terminator limit consumed stack =
        Reader.turn terminator limit (token symbols (unbudgetedNested symbols) terminator)
          (unbudgeted symbols terminator limit true) consumed stack :=
      funext (unbudgeted_eq symbols terminator limit consumed stack)
    rw [plain]
    refine turn (fun token token' same stack => ?_) fun stack => ih
    exact coupling.token ⟨rawArgument, fun terminator limit => ih⟩ terminator symbols same trivial stack

end Decided

end Reader

/-! ## Whole sources -/

namespace Formula

open Reader (Ahead Alike)

variable {symbols : SymbolTable} {tokens tokens' : List Token} {stop : Nat} {e : FormulaError}

/-- A source that is refused for a prompt cause is refused at one of its late tokens, or any other
source that is alike up to these is refused too. -/
theorem ofTokens?_decided {spans : Span → Span → Prop} {late late' : List Token}
    (ahead : Ahead spans late late' tokens tokens')
    (refused : ofTokens? symbols tokens stop = .error (.refused e))
    (prompt : e.cause.isPrompt = true) (stop' : Nat) :
    (∃ token ∈ late, e.span = token.span) ∨ ∃ span', spans e.span span' ∧
      ofTokens? symbols tokens' stop' = .error (.refused ⟨span', e.cause⟩) := by
  have some_left : tokens.isEmpty = false ∧ tokens'.isEmpty = false := by
    obtain ⟨token, token', rest, rest', rfl, rfl, -⟩ := ahead.split
    exact ⟨rfl, rfl⟩
  rw [ofTokens?_eq symbols tokens' stop', unbudgetedTokens?, some_left.2]
  have run : (Reader.sequence symbols none .unbounded (tokens.length + 1) false []
      { tokens, last := ⟨0, 0⟩, stop }).map (·.1) = .error (.refused e) := by
    rw [ofTokens?, some_left.1] at refused
    exact refused
  have decided : Reader.Decided spans late late'
      (Reader.sequence symbols none .unbounded (tokens.length + 1) false [])
      (Reader.unbudgeted symbols none .unbounded false []) := .sequence symbols _
  have both := decided.ahead (c := { tokens, last := ⟨0, 0⟩, stop })
    (d := { tokens := tokens', last := ⟨0, 0⟩, stop := stop' }) ⟨ahead, rfl⟩
  generalize Reader.sequence symbols none .unbounded (tokens.length + 1) false []
    { tokens, last := ⟨0, 0⟩, stop } = given at run both
  generalize Reader.unbudgeted symbols none .unbounded false []
    { tokens := tokens', last := ⟨0, 0⟩, stop := stop' } = given' at both
  cases given with
  | ok read => cases run
  | error failure =>
    obtain rfl := Except.error.inj run
    rcases both with lost | together
    · exact .inl (lost prompt)
    · cases together with
      | refused cause places => exact .inr ⟨_, places, rfl⟩

/-- The tokens with their numbers for places. -/
def numbered (tokens : List Token) : List Token :=
  tokens.mapIdx fun i token => { token with span := ⟨i, i⟩ }

/-- A source is refused at its token of a number, whatever the places of its tokens are. -/
def RaisedAt (symbols : SymbolTable) (tokens : List Token) (i : Nat) : Prop :=
  ∃ cause, ofTokens? symbols (numbered tokens) tokens.length = .error (.refused ⟨⟨i, i⟩, cause⟩)

/-- The number of a token, and its place. -/
def Numbers (tokens : List Token) (number place : Span) : Prop :=
  ∃ i token, tokens[i]? = some token ∧ number = ⟨i, i⟩ ∧ place = token.span

theorem numbered_alike (tokens : List Token) :
    List.Forall₂ (Alike (Numbers tokens)) (numbered tokens) tokens := by
  rw [List.forall₂_iff_get]
  refine ⟨List.length_mapIdx, fun i _ within => ?_⟩
  have number : (numbered tokens).get ⟨i, ‹_›⟩ = { tokens[i] with span := ⟨i, i⟩ } :=
    List.getElem_mapIdx ..
  rw [number]
  exact ⟨rfl, i, tokens[i], List.getElem?_eq_getElem within, rfl, rfl⟩

theorem alike_numbered (tokens : List Token) :
    List.Forall₂ (Alike fun place number => Numbers tokens number place) tokens (numbered tokens) :=
  ((numbered_alike tokens).imp fun _ _ alike => ⟨alike.1.symm, alike.2⟩).flip

/-- Behind a token of a number are tokens of other numbers. -/
theorem numbered_behind {i : Nat} {token : Token}
    (behind : token ∈ (numbered tokens).drop (i + 1)) : token.span ≠ ⟨i, i⟩ := by
  obtain ⟨j, within, rfl⟩ := List.mem_iff_getElem.mp behind
  simp only [numbered, List.getElem_drop, List.getElem_mapIdx]
  intro same
  have equal : i + 1 + j = i := congrArg Span.start same
  omega

/-- A source that is refused for a prompt cause is refused at one of its tokens. Any other source
that has the same tokens up to that one is refused for the same cause and at the same place, whatever
tokens follow. -/
theorem ofTokens?_prompt (refused : ofTokens? symbols tokens stop = .error (.refused e))
    (prompt : e.cause.isPrompt = true) :
    (∃ i token, tokens[i]? = some token ∧ e.span = token.span ∧ RaisedAt symbols tokens i) ∧
      ∀ i tokens' stop', RaisedAt symbols tokens i → tokens.take (i + 1) = tokens'.take (i + 1) →
        ofTokens? symbols tokens' stop' = .error (.refused e) := by
  have nonempty : tokens ≠ [] := by
    rintro rfl
    cases refused
  have all : Ahead (fun place number => Numbers tokens number place) [] [] tokens (numbered tokens) := by
    simpa using Reader.ahead_append [] [] nonempty (alike_numbered tokens)
  obtain ⟨token, absent, -⟩ | ⟨-, ⟨j, token, here, rfl, place⟩, raised⟩ :=
    ofTokens?_decided all refused prompt tokens.length
  · cases absent
  refine ⟨⟨j, token, here, place, _, raised⟩, fun i tokens' stop' raised' same => ?_⟩
  obtain ⟨cause, given⟩ := raised'
  rw [raised] at given
  obtain ⟨rfl, rfl⟩ : j = i ∧ e.cause = cause := by
    cases given
    exact ⟨rfl, rfl⟩
  have early : List.Forall₂ (Alike (Numbers tokens)) ((numbered tokens).take (j + 1))
      (tokens'.take (j + 1)) := by
    rw [← same]
    exact List.forall₂_take _ (numbered_alike tokens)
  have upTo : Ahead (Numbers tokens) ((numbered tokens).drop (j + 1)) (tokens'.drop (j + 1))
      (numbered tokens) tokens' := by
    have one : (numbered tokens).take (j + 1) ≠ [] := by simpa [numbered] using nonempty
    have split := Reader.ahead_append ((numbered tokens).drop (j + 1)) (tokens'.drop (j + 1)) one early
    rwa [List.take_append_drop, List.take_append_drop] at split
  obtain ⟨token, behind, number⟩ | ⟨span, ⟨k, token', there, number, place'⟩, refused'⟩ :=
    ofTokens?_decided upTo raised prompt stop'
  · exact absurd number.symm (numbered_behind behind)
  · obtain rfl : j = k := congrArg Span.start number
    rw [here] at there
    obtain rfl := Option.some.inj there
    rw [refused', place', ← place]

/-- A second exponent is refused before a pair of delimiters behind it is seen to be open. -/
theorem ofTokens?_prompt_exponent :
    let tokens := Source.tokens ⟨[]⟩ "x^a^b"
    let tokens' := Source.tokens ⟨[]⟩ "x^a^\\left("
    ofTokens? ⟨[]⟩ tokens 5 = .error (.refused ⟨⟨3, 4⟩, .doubleScript .sup⟩) ∧
      RaisedAt ⟨[]⟩ tokens 3 ∧ tokens.take 4 = tokens'.take 4 ∧
      ofTokens? ⟨[]⟩ tokens' 10 = .error (.refused ⟨⟨3, 4⟩, .doubleScript .sup⟩) := by
  have refused : ofTokens? ⟨[]⟩ (Source.tokens ⟨[]⟩ "x^a^b") 5 =
      .error (.refused ⟨⟨3, 4⟩, .doubleScript .sup⟩) := by
    decide +kernel
  have raised : RaisedAt ⟨[]⟩ (Source.tokens ⟨[]⟩ "x^a^b") 3 := ⟨.doubleScript .sup, by decide +kernel⟩
  have same : (Source.tokens ⟨[]⟩ "x^a^b").take 4 = (Source.tokens ⟨[]⟩ "x^a^\\left(").take 4 := by
    decide +kernel
  exact ⟨refused, raised, same, (ofTokens?_prompt refused rfl).2 3 _ 10 raised same⟩

end Formula

end FormulaMarkup

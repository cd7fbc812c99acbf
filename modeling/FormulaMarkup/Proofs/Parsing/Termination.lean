import FormulaMarkup.Proofs.Parsing.Coupling

/-!
The parser terminates. A sequence is read here without a budget, by recursion on the number of tokens
that are left: a nested sequence or a further turn that finds as many tokens as the call had counts as
a budget that is used up. Main statement: this never happens, no call leaves more tokens than it
found, and a budget of one more than the tokens that are left is enough for every call.
-/
namespace FormulaMarkup

namespace Reader

/-! ## Reading without a budget -/

/-- Reads a sequence as `sequence` does. Each nested sequence and each further turn has to find fewer
tokens than this call. -/
def unbudgeted (symbols : SymbolTable) (terminator : Option String) (limit : Limit)
    (consumed : Bool) (stack : List Node) (c : Cursor) : Except Failure (List Node × Cursor) :=
  let nested : Nested :=
    { raw := rawArgument
      sequence := fun terminator limit mid =>
        if _ : mid.tokens.length < c.tokens.length then
          unbudgeted symbols terminator limit false [] mid
        else .error .exhausted }
  let again (stack : List Node) : Reader (List Node) := fun mid =>
    if _ : mid.tokens.length < c.tokens.length then unbudgeted symbols terminator limit true stack mid
    else .error .exhausted
  turn terminator limit (token symbols nested terminator) again consumed stack c
termination_by c.tokens.length

/-- The readers that tokens are handed where no budget is kept. -/
def unbudgetedNested (symbols : SymbolTable) : Nested where
  raw := rawArgument
  sequence := fun terminator limit => unbudgeted symbols terminator limit false []

/-- A reader that has to find fewer tokens than a cursor has. -/
def below {α : Type} (c : Cursor) (r : Reader α) : Reader α := fun mid =>
  if mid.tokens.length < c.tokens.length then r mid else .error .exhausted

/-- The same readers, of which the sequences have to find fewer tokens than a call. -/
def guardedNested (symbols : SymbolTable) (c : Cursor) : Nested where
  raw := rawArgument
  sequence := fun terminator limit => below c (unbudgeted symbols terminator limit false [])

theorem unbudgeted_guarded (symbols : SymbolTable) (terminator : Option String) (limit : Limit)
    (consumed : Bool) (stack : List Node) (c : Cursor) :
    unbudgeted symbols terminator limit consumed stack c =
      turn terminator limit (token symbols (guardedNested symbols c) terminator)
        (fun stack => below c (unbudgeted symbols terminator limit true stack)) consumed stack c := by
  rw [unbudgeted]
  rfl

/-! ## Readers that only go forward -/

/-- Two readers do the same wherever they begin in a list of tokens, and stay there. -/
def SameIn {α : Type} (tokens : List Token) (r s : Reader α) : Prop :=
  ∀ c, c.tokens <:+ tokens → Same r s c fun _ after => after.tokens <:+ tokens

theorem rawArgument_same_in (tokens : List Token) (terminator : Option String) :
    SameIn tokens (rawArgument terminator) (rawArgument terminator) := by
  intro c within
  unfold rawArgument
  refine .step (get_ok c) ?_
  dsimp only
  split
  · exact .refuseNext
  · cases left : c.tokens with
    | nil => exact .step (next?_nil left) .refuseNext
    | cons token rest =>
      rw [left] at within
      exact .step (next?_cons left) (.pure ((List.suffix_cons token rest).trans within))

theorem coupling_sameIn (tokens : List Token) : Coupling Eq (SameIn tokens) where
  pure _ := fun _ within => .pure within
  bind first andThen := fun c within =>
    (first c within).bind fun a after here => andThen a after here
  refuse places _ := by
    subst places
    exact fun _ _ => .refuse
  refuseLast _ := fun _ _ => .refuseLast
  nextIs text := fun c within => .of_ok (nextIs_ok text c) within
  next nothing andThen := by
    intro c within
    cases left : c.tokens with
    | nil => exact .step (next?_nil left) (nothing c within)
    | cons token rest =>
      rw [left] at within
      exact .step (next?_cons left) (andThen token token rfl _ ((List.suffix_cons token rest).trans within))
  bracedText := fun _ within => .of_ok rfl ((List.drop_suffix _ _).trans within)
  optional same := by
    intro c within
    unfold optional
    refine .step (get_ok c) ?_
    split
    · exact .pure within
    · exact same c within

/-! ## Turns -/

variable {terminator : Option String} {limit : Limit} {consumed : Bool} {stack : List Node} {c : Cursor}

theorem close_same_in : Same (Reader.close terminator limit consumed stack)
    (Reader.close terminator limit consumed stack) c fun _ after => after.tokens = c.tokens := by
  unfold Reader.close
  split
  · exact .refuseNext
  · split
    · exact .pure rfl
    · dsimp only
      split
      · split
        · exact .step (a := ()) rfl (.pure rfl)
        · exact .refuseLast
      · split
        · exact .refuseLast
        · exact .pure rfl

theorem marker_same_in (text : String) :
    Same (marker text) (marker text) c fun _ after => after.tokens <:+ c.tokens := by
  unfold marker
  split
  · cases left : c.tokens with
    | nil => exact .step (next?_nil left) (.pure (left ▸ List.suffix_refl _))
    | cons token rest => exact .step (next?_cons left) (.pure (List.suffix_cons token rest))
  · exact .pure (List.suffix_refl _)

/-- Two turns do the same if their steps, and the turns behind them, do so on the tokens behind the
next one. -/
theorem turn_same_in {step step' : Token → List Node → Reader Progress}
    {again again' : List Node → Reader (List Node)}
    (steps : ∀ token rest, c.tokens = token :: rest → ∀ stack,
      SameIn rest (step token stack) (step' token stack))
    (goesOn : ∀ token rest, c.tokens = token :: rest → ∀ stack,
      SameIn rest (again stack) (again' stack)) :
    Same (turn terminator limit step again consumed stack)
      (turn terminator limit step' again' consumed stack) c
      fun _ after => after.tokens <:+ c.tokens := by
  unfold turn
  refine .step (a := c.pending) rfl ?_
  cases c.pending with
  | some owed =>
    dsimp only
    split
    · exact close_same_in.mono fun _ after same => same ▸ List.suffix_refl c.tokens
    · exact .refuseLast
  | none =>
    cases left : c.tokens with
    | nil => exact .step (next?_nil rfl) (close_same_in.mono fun _ after same => same ▸ List.suffix_refl [])
    | cons token rest =>
      refine .step (next?_cons rfl) ?_
      have behind : rest <:+ token :: rest := List.suffix_cons token rest
      dsimp only
      split
      · split
        · refine .bind (marker_same_in _) fun node after here =>
            close_same_in.mono fun _ last same => ?_
          rw [same]
          exact here.trans behind
        · exact .refuse
      · refine .bind (steps token rest left stack _ (List.suffix_refl rest)) fun progress after here => ?_
        split
        · refine close_same_in.mono fun _ last same => ?_
          rw [same]
          exact here.trans behind
        · exact (goesOn token rest left progress.stack after here).mono
            fun _ last here => here.trans behind

/-- Tokens are read in the same way if nested sequences are. -/
theorem token_same_in (symbols : SymbolTable) {tokens : List Token} {nested nested' : Nested}
    (coupled : CoupledNested (SameIn tokens) nested nested') (terminator : Option String)
    (next : Token) (stack : List Node) :
    SameIn tokens (token symbols nested terminator next stack)
      (token symbols nested' terminator next stack) := by
  have alike : next.text = next.text := rfl
  rcases (coupling_sameIn tokens).token coupled terminator symbols alike rfl stack with
    ⟨cause, -, given, given'⟩ | same
  · rw [given, given']
    exact fun _ _ => .refuse
  · exact same

/-! ## Budgets -/

/-- Readers do the same behind the next token if one of them has to find fewer tokens there. -/
theorem below_same_in {α : Type} {r s : Reader α} {token : Token} {rest : List Token}
    (left : c.tokens = token :: rest)
    (same : ∀ mid : Cursor, mid.tokens.length < c.tokens.length →
      Same r s mid fun _ after => after.tokens <:+ mid.tokens) :
    SameIn rest r (below c s) ∧ SameIn rest (below c r) s := by
  have met {mid : Cursor} (within : mid.tokens <:+ rest) (r : Reader α) :
      mid.tokens.length < c.tokens.length ∧ below c r mid = r mid := by
    have shorter := within.length_le
    have fewer : mid.tokens.length < c.tokens.length := by
      rw [left, List.length_cons]
      omega
    exact ⟨fewer, if_pos fewer⟩
  refine ⟨fun mid within => ?_, fun mid within => ?_⟩
  · obtain ⟨fewer, given⟩ := met within s
    obtain ⟨equal, ends⟩ := (same mid fewer).mono fun _ after here => here.trans within
    refine ⟨equal.trans given.symm, ?_⟩
    rwa [Ends, given]
  · obtain ⟨fewer, given⟩ := met within r
    obtain ⟨equal, ends⟩ := (same mid fewer).mono fun _ after here => here.trans within
    exact ⟨given.trans equal, ends⟩

/-- A budget of more than the tokens that are left is enough, and then no budget is needed. -/
theorem sequence_same (symbols : SymbolTable) (budget : Nat) (terminator : Option String)
    (limit : Limit) (consumed : Bool) (stack : List Node) (c : Cursor)
    (enough : c.tokens.length < budget) :
    Same (sequence symbols terminator limit budget consumed stack)
      (unbudgeted symbols terminator limit consumed stack) c
      fun _ after => after.tokens <:+ c.tokens := by
  induction budget generalizing terminator limit consumed stack c with
  | zero => omega
  | succ budget ih =>
    have behind {token : Token} {rest : List Token} (left : c.tokens = token :: rest)
        (terminator : Option String) (limit : Limit) (consumed : Bool) (stack : List Node) :
        SameIn rest (sequence symbols terminator limit budget consumed stack)
          (below c (unbudgeted symbols terminator limit consumed stack)) :=
      (below_same_in left fun mid fewer =>
        ih terminator limit consumed stack mid (by omega)).1
    unfold Same Ends
    rw [unbudgeted_guarded, sequence]
    apply turn_same_in
    · intro token rest left stack
      refine token_same_in symbols ⟨rawArgument_same_in rest, ?_⟩ terminator token stack
      exact fun terminator limit => behind left terminator limit false []
    · exact fun token rest left stack => behind left terminator limit true stack

theorem unbudgeted_ends (symbols : SymbolTable) (terminator : Option String) (limit : Limit)
    (consumed : Bool) (stack : List Node) (c : Cursor) :
    Ends (unbudgeted symbols terminator limit consumed stack) c
      fun _ after => after.tokens <:+ c.tokens :=
  (sequence_same symbols (c.tokens.length + 1) terminator limit consumed stack c (Nat.lt_succ_self _)).2

/-- The condition of the recursion is always met, so it can be left out. -/
theorem unbudgeted_eq (symbols : SymbolTable) (terminator : Option String) (limit : Limit)
    (consumed : Bool) (stack : List Node) (c : Cursor) :
    unbudgeted symbols terminator limit consumed stack c =
      turn terminator limit (token symbols (unbudgetedNested symbols) terminator)
        (unbudgeted symbols terminator limit true) consumed stack c := by
  have behind {token : Token} {rest : List Token} (left : c.tokens = token :: rest)
      (terminator : Option String) (limit : Limit) (consumed : Bool) (stack : List Node) :
      SameIn rest (below c (unbudgeted symbols terminator limit consumed stack))
        (unbudgeted symbols terminator limit consumed stack) :=
    (below_same_in left fun mid _ =>
      ⟨rfl, unbudgeted_ends symbols terminator limit consumed stack mid⟩).2
  rw [unbudgeted_guarded]
  refine (turn_same_in ?_ ?_).1
  · intro token rest left stack
    refine token_same_in symbols ⟨rawArgument_same_in rest, ?_⟩ terminator token stack
    exact fun terminator limit => behind left terminator limit false []
  · exact fun token rest left stack => behind left terminator limit true stack

/-! ## Calls -/

/-- The calls that the recursion is made of, over the nested sequences that they read. -/
inductive Call (symbols : SymbolTable) (nested : Nested) : {α : Type} → Reader α → Prop
  | sequence (terminator : Option String) (limit : Limit) :
    Call symbols nested (nested.sequence terminator limit)
  | rawArgument (terminator : Option String) : Call symbols nested (rawArgument terminator)
  | optional (terminator : Option String) : Call symbols nested (optional nested terminator)
  | group (closing : String) : Call symbols nested (group nested closing)
  | remainder (terminator : Option String) : Call symbols nested (remainder nested terminator)
  | arguments (terminator : Option String) (count : Nat) :
    Call symbols nested (arguments nested terminator count)
  | argument (terminator : Option String) : Call symbols nested (argument nested terminator)
  | fence? (terminator : Option String) : Call symbols nested (fence? nested terminator)
  | token (terminator : Option String) (next : Token) (stack : List Node) :
    Call symbols nested (token symbols nested terminator next stack)
  | command (terminator : Option String) (next : Token) (stack : List Node) :
    Call symbols nested (command symbols nested terminator next stack)
  | environment (span : Span) (header : String) : Call symbols nested (environment nested span header)
  | leftRight (span : Span) : Call symbols nested (leftRight nested span)
  | script (terminator : Option String) (kind : ScriptKind) (span : Span) (stack : List Node) :
    Call symbols nested (script nested terminator kind span stack)
  | negation (terminator : Option String) (stack : List Node) :
    Call symbols nested (negation symbols nested terminator stack)
  | color (terminator : Option String) (text : String) (stack : List Node) :
    Call symbols nested (color nested terminator text stack)
  | table (terminator : Option String) (text : String) (stack : List Node) :
    Call symbols nested (table nested terminator text stack)
  | infixFraction (terminator : Option String) (fraction : InfixFraction) (span : Span)
      (stack : List Node) :
    Call symbols nested (infixFraction nested terminator fraction span stack)
  | labelledArrow (terminator : Option String) (text : String) :
    Call symbols nested (labelledArrow nested terminator text)
  | space (terminator : Option String) (text : String) :
    Call symbols nested (space nested terminator text)
  | squareRoot (terminator : Option String) : Call symbols nested (squareRoot nested terminator)
  | root (terminator : Option String) : Call symbols nested (root nested terminator)
  | generalFraction (terminator : Option String) :
    Call symbols nested (generalFraction nested terminator)
  | sideScripts (terminator : Option String) : Call symbols nested (sideScripts nested terminator)
  | skew (terminator : Option String) (span : Span) : Call symbols nested (skew nested terminator span)

theorem unbudgetedNested_coupled (symbols : SymbolTable) (tokens : List Token) :
    CoupledNested (SameIn tokens) (unbudgetedNested symbols) (unbudgetedNested symbols) where
  raw := rawArgument_same_in tokens
  sequence := fun terminator limit _ within =>
    Same.mono ⟨rfl, unbudgeted_ends symbols terminator limit false [] _⟩
      fun _ _ here => here.trans within

/-- No call leaves more tokens than it finds: what it leaves are the last ones of them. -/
theorem Call.suffix {symbols : SymbolTable} {α : Type} {r : Reader α}
    (call : Call symbols (unbudgetedNested symbols) r) {c after : Cursor} {a : α}
    (given : r c = .ok (a, after)) : after.tokens <:+ c.tokens := by
  have coupling := coupling_sameIn c.tokens
  have coupled := unbudgetedNested_coupled symbols c.tokens
  have same : SameIn c.tokens r r := by
    cases call with
    | sequence terminator limit => exact coupled.sequence terminator limit
    | rawArgument terminator => exact coupled.raw terminator
    | optional terminator => exact coupling.optional (coupled.sequence terminator .unbounded)
    | group closing => exact coupling.group coupled closing
    | remainder terminator => exact coupling.remainder coupled terminator
    | arguments terminator count => exact coupled.sequence terminator (.nodes count)
    | argument terminator => exact coupling.argument coupled terminator
    | fence? terminator => exact coupling.fence? coupled terminator
    | token terminator next stack => exact token_same_in symbols coupled terminator next stack
    | command terminator next stack => exact coupling.command coupled terminator symbols rfl rfl stack
    | environment span header => exact coupling.environment coupled rfl header
    | leftRight span => exact coupling.leftRight coupled rfl
    | script terminator kind span stack =>
      rcases coupling.script coupled terminator kind span span stack with ⟨cause, -, refused, -⟩ | same
      · rw [refused]
        exact fun _ _ => .refuse
      · exact same
    | negation terminator stack => exact coupling.negation coupled terminator symbols stack
    | color terminator text stack => exact coupling.color coupled terminator text stack
    | table terminator text stack => exact coupling.table coupled terminator text stack
    | infixFraction terminator fraction span stack =>
      exact coupling.infixFraction coupled terminator fraction rfl stack
    | labelledArrow terminator text => exact coupling.bracketed coupled terminator _ _
    | space terminator text => exact coupling.space coupled terminator text
    | squareRoot terminator => exact coupling.bracketed coupled terminator _ _
    | root terminator => exact coupling.root coupled terminator
    | generalFraction terminator => exact coupling.generalFraction coupled terminator
    | sideScripts terminator => exact coupling.sideScripts coupled terminator
    | skew terminator span => exact coupling.skew coupled terminator rfl
  have ends := (same c (List.suffix_refl _)).2
  rwa [Ends, given] at ends

end Reader

/-! ## Whole parses -/

namespace Formula

open Reader (Call unbudgeted unbudgetedNested)

/-- Reads all tokens of a source as `ofTokens?` does, without a budget. -/
def unbudgetedTokens? (symbols : SymbolTable) (tokens : List Token) (stop : Nat) :
    Except Failure (List Node) :=
  if tokens.isEmpty then .ok []
  else (unbudgeted symbols none .unbounded false [] { tokens, last := ⟨0, 0⟩, stop }).map (·.1)

theorem ofTokens?_eq (symbols : SymbolTable) (tokens : List Token) (stop : Nat) :
    ofTokens? symbols tokens stop = unbudgetedTokens? symbols tokens stop := by
  unfold ofTokens? unbudgetedTokens?
  dsimp only [StateT.run]
  split
  · rfl
  · exact congrArg _ (Reader.sequence_same symbols (tokens.length + 1) none .unbounded false []
      { tokens, last := ⟨0, 0⟩, stop } (Nat.lt_succ_self _)).1

/-- The parser terminates. Without a budget it is a total function, which reads a sequence turn by
turn over the nested sequences and never finds one, or a further turn, with as many tokens as the
call had; no call leaves more tokens than it finds; and a budget of more than the tokens that are left
gives the same. -/
theorem parse_terminates (symbols : SymbolTable) :
    (∀ terminator limit consumed stack c,
      unbudgeted symbols terminator limit consumed stack c ≠ .error .exhausted ∧
      unbudgeted symbols terminator limit consumed stack c =
        Reader.turn terminator limit (Reader.token symbols (unbudgetedNested symbols) terminator)
          (unbudgeted symbols terminator limit true) consumed stack c ∧
      ∀ budget, c.tokens.length < budget →
        Reader.sequence symbols terminator limit budget consumed stack c =
          unbudgeted symbols terminator limit consumed stack c) ∧
    (∀ {α : Type} {r : Reader α}, Call symbols (unbudgetedNested symbols) r →
      ∀ c a after, r c = .ok (a, after) → after.tokens <:+ c.tokens) ∧
    ∀ tokens stop, ofTokens? symbols tokens stop = unbudgetedTokens? symbols tokens stop ∧
      ofTokens? symbols tokens stop ≠ .error .exhausted := by
  have total (terminator limit consumed stack c) :
      unbudgeted symbols terminator limit consumed stack c ≠ .error .exhausted := by
    intro exhausted
    have ends := Reader.unbudgeted_ends symbols terminator limit consumed stack c
    rw [Reader.Ends, exhausted] at ends
    exact ends rfl
  refine ⟨fun terminator limit consumed stack c => ⟨total terminator limit consumed stack c,
    ?_, fun budget enough => ?_⟩, ?_, ?_⟩
  · exact Reader.unbudgeted_eq symbols terminator limit consumed stack c
  · exact (Reader.sequence_same symbols budget terminator limit consumed stack c enough).1
  · exact fun call c a after given => call.suffix given
  · intro tokens stop
    refine ⟨ofTokens?_eq symbols tokens stop, ?_⟩
    rw [ofTokens?_eq, unbudgetedTokens?]
    split
    · intro exhausted
      cases exhausted
    · cases given : unbudgeted symbols none .unbounded false [] { tokens, last := ⟨0, 0⟩, stop } with
      | ok read =>
        intro exhausted
        cases exhausted
      | error failure =>
        rintro ⟨⟩
        exact total _ _ _ _ _ given

/-- The tokens of `a_b` and a budget of four; and an argument that is one of them. -/
theorem parse_terminates_index :
    let c : Cursor := { tokens := Source.tokens ⟨[]⟩ "a_b", last := ⟨0, 0⟩, stop := 3 }
    c.tokens.length < 4 ∧
      Reader.sequence ⟨[]⟩ none .unbounded 4 false [] c =
        unbudgeted ⟨[]⟩ none .unbounded false [] c ∧
      ∃ text after, Reader.rawArgument none c = .ok (text, after) ∧ after.tokens <:+ c.tokens := by
  let c : Cursor := { tokens := Source.tokens ⟨[]⟩ "a_b", last := ⟨0, 0⟩, stop := 3 }
  have few : c.tokens.length < 4 := by decide +kernel
  have raw : Reader.rawArgument none c =
      .ok ("a", { c with tokens := c.tokens.tail, last := ⟨0, 1⟩ }) := by
    decide +kernel
  obtain ⟨sequences, calls, -⟩ := parse_terminates ⟨[]⟩
  exact ⟨few, (sequences none .unbounded false [] c).2.2 4 few,
    _, _, raw, calls (.rawArgument none) c _ _ raw⟩

end Formula

end FormulaMarkup

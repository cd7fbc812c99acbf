import FormulaMarkup.Formula.Parse
import FormulaMarkup.Proofs.Parsing.Agreement

/-!
What errors point at. An error is reported at a token of the source that its cause speaks of, or at
the end of the source where there is no token left. The places come from the cursor: the token that
is read, the one read last, or the one that is next. Main statement: `parse_blames`.
-/
namespace FormulaMarkup

/-- The tokens that an error may be reported at. The end of the source is reported at none. -/
def Cause.IsFor : Cause → String → Prop
  | .doubleScript kind, text => text = kind.token
  | .limitsRequireOperator, text => text = "_" ∨ text = "^"
  | .unbalancedDelimiter command, text => text = command.written
  | .missingEnd _, text | .invalidAlignment _, text => Word.begins Word.environmentStart text
  | .missingNumerator, text | .missingDenominator, text => text ∈ Shape.infixFractions.map (·.1)
  | .invalidWidth _, _ | .missingArgument, _ => True
  | .noTokens, _ => False

/-- The errors of a source that has these tokens and ends at this byte. -/
inductive Blames (tokens : List Token) (stop : Nat) : FormulaError → Prop
  | token {t : Token} {cause : Cause} (listed : t ∈ tokens) (fits : cause.IsFor t.text) :
      Blames tokens stop ⟨t.span, cause⟩
  | ending {cause : Cause} (lacks : cause = .noTokens ∨ cause = .missingArgument) :
      Blames tokens stop ⟨⟨stop, stop⟩, cause⟩

namespace Reader

/- A cursor in the tokens of a source, of which it has read at least one. -/
structure Within (all : List Token) (stop : Nat) (c : Cursor) : Prop where
  left : c.tokens ⊆ all
  stop : c.stop = stop
  last : ∃ t ∈ all, c.last = t.span

def HeedsAt {α : Type} (all : List Token) (stop : Nat) (r : Reader α) (c : Cursor) : Prop :=
  match r c with
  | .ok (_, after) => Within all stop after
  | .error (.refused e) => Blames all stop e
  | .error .exhausted => True

/- Wherever a reader begins in the source, it stays there, and so do the errors it reports. -/
def Heeds {α : Type} (all : List Token) (stop : Nat) (r : Reader α) : Prop :=
  ∀ c, Within all stop c → HeedsAt all stop r c

variable {all : List Token} {stop : Nat}

/-! ## Rules -/

namespace Heeds

variable {α β : Type}

theorem pure {a : α} : Heeds all stop (Pure.pure a : Reader α) := by
  intro c within
  exact within

theorem refuse {t : Token} {cause : Cause} (listed : t ∈ all) (fits : cause.IsFor t.text) :
    Heeds all stop (Reader.refuse t.span cause : Reader α) := by
  intro c _
  exact Blames.token listed fits

theorem bind {r : Reader α} {f : α → Reader β} (first : Heeds all stop r)
    (andThen : ∀ a, Heeds all stop (f a)) : Heeds all stop (r >>= f) := by
  intro c within
  have before := first c within
  unfold HeedsAt at before ⊢
  cases given : r c with
  | error failure =>
    rw [given] at before
    rw [bind_error given]
    cases failure with
    | refused e => exact before
    | exhausted => trivial
  | ok result =>
    obtain ⟨a, after⟩ := result
    rw [given] at before
    rw [bind_ok given]
    exact andThen a after before

theorem get {f : Cursor → Reader β} (andThen : ∀ c, Heeds all stop (f c)) :
    Heeds all stop (MonadState.get >>= f) := by
  intro c within
  exact andThen c c within

theorem nextIs (text : String) : Heeds all stop (Reader.nextIs text) := by
  intro c within
  exact within

/- Taking a token: it is one of the source, or there is none left. -/
theorem next {f : Option Token → Reader β}
    (nothing : ∀ c, Within all stop c → c.tokens = [] → HeedsAt all stop (f none) c)
    (andThen : ∀ t ∈ all, Heeds all stop (f (some t))) : Heeds all stop (next? >>= f) := by
  intro c within
  unfold HeedsAt
  cases left : c.tokens with
  | nil =>
    rw [bind_ok (next?_nil left)]
    exact nothing c within left
  | cons t rest =>
    have inside : t :: rest ⊆ all := left ▸ within.left
    have listed : t ∈ all := inside (List.mem_cons_self ..)
    rw [bind_ok (next?_cons left)]
    apply andThen t listed
    constructor
    · exact fun other later => inside (List.mem_cons_of_mem t later)
    · exact within.stop
    · exact ⟨t, listed, rfl⟩

theorem skip {f : Option Token → Reader β} (andThen : ∀ t, Heeds all stop (f t)) :
    Heeds all stop (next? >>= f) := by
  apply next
  · exact fun c within _ => andThen none c within
  · exact fun t _ => andThen (some t)

theorem refuseLast {cause : Cause} (any : ∀ text, cause.IsFor text) :
    Heeds all stop (lastSpan >>= fun span => (Reader.refuse span cause : Reader α)) := by
  intro c within
  obtain ⟨t, listed, last⟩ := within.last
  change Blames all stop ⟨c.last, cause⟩
  rw [last]
  exact .token listed (any t.text)

theorem refuseNext :
    Heeds all stop (nextSpan >>= fun span => (Reader.refuse span .missingArgument : Reader α)) := by
  rintro ⟨tokens, last, stop', pending⟩ within
  cases tokens with
  | nil =>
    obtain rfl : stop' = stop := within.stop
    exact Blames.ending (.inr rfl)
  | cons t rest => exact Blames.token (within.left (List.mem_cons_self ..)) trivial

theorem refuseEnd {c : Cursor} (within : Within all stop c) (done : c.tokens = []) :
    HeedsAt all stop (nextSpan >>= fun span => (Reader.refuse span .noTokens : Reader α)) c := by
  obtain ⟨tokens, last, stop', pending⟩ := c
  obtain rfl : tokens = [] := done
  obtain rfl : stop' = stop := within.stop
  exact Blames.ending (.inl rfl)

end Heeds

/-! ## Arguments -/

theorem rawArgument_heeds (terminator : Option String) :
    Heeds all stop (rawArgument terminator) := by
  unfold rawArgument
  apply Heeds.get
  intro c
  dsimp only
  split
  · exact .refuseNext
  · apply Heeds.next
    · exact fun _ within done => Heeds.refuseEnd within done
    · exact fun _ _ => .pure

structure HeedsNested (all : List Token) (stop : Nat) (nested : Nested) : Prop where
  raw : ∀ terminator, Heeds all stop (nested.raw terminator)
  sequence : ∀ terminator limit, Heeds all stop (nested.sequence terminator limit)

section Nested

variable {nested : Nested} (heeds : HeedsNested all stop nested) (terminator : Option String)

include heeds

theorem optional_heeds : Heeds all stop (optional nested terminator) := by
  unfold optional
  apply Heeds.get
  intro c
  split
  · exact .pure
  · exact heeds.sequence terminator .unbounded

theorem group_heeds (closing : String) : Heeds all stop (group nested closing) := by
  unfold group
  apply (optional_heeds heeds _).bind
  intro nodes
  split
  · exact .pure
  · exact .pure

theorem remainder_heeds : Heeds all stop (remainder nested terminator) := by
  unfold remainder
  apply (optional_heeds heeds _).bind
  intro nodes
  split
  · split
    · exact .pure
    · exact .pure
  · exact .pure

theorem arguments_heeds (count : Nat) : Heeds all stop (arguments nested terminator count) :=
  heeds.sequence terminator (.nodes count)

theorem argument_heeds : Heeds all stop (argument nested terminator) := by
  apply (arguments_heeds heeds terminator 1).bind
  exact fun _ => .pure

/- The braces around a text may be missing at the end of the source; then nothing is read, or all. -/
omit heeds in
theorem bracedText_heeds : Heeds all stop bracedText := by
  intro c within
  constructor
  · exact fun t later => within.left (List.mem_of_mem_drop later)
  · exact within.stop
  · dsimp only
    cases found : (c.tokens.take _).getLast? with
    | none => exact within.last
    | some t =>
      have taken := List.mem_of_getLast? found
      exact ⟨t, within.left (List.mem_of_mem_take taken), rfl⟩

theorem fence?_heeds : Heeds all stop (fence? nested terminator) := by
  apply (heeds.raw terminator).bind
  intro raw
  dsimp only
  split
  · exact bracedText_heeds.bind fun _ => .pure
  · exact Heeds.pure.bind fun _ => .pure

/-! ## Commands -/

theorem bracketed_heeds (labelled : List Node → Node → Node) (bare : Node → Node) :
    Heeds all stop (bracketed nested terminator labelled bare) := by
  apply (Heeds.nextIs _).bind
  intro follows
  split
  · apply Heeds.skip
    intro _
    apply (group_heeds heeds _).bind
    exact fun _ => (argument_heeds heeds terminator).bind fun _ => .pure
  · exact (argument_heeds heeds terminator).bind fun _ => .pure

theorem space_heeds (token : String) : Heeds all stop (space nested terminator token) := by
  apply (argument_heeds heeds terminator).bind
  intro width
  dsimp only
  split
  · exact .refuseLast fun _ => trivial
  · exact .pure

theorem root_heeds : Heeds all stop (root nested terminator) := by
  apply (group_heeds heeds _).bind
  exact fun _ => (argument_heeds heeds terminator).bind fun _ => .pure

theorem generalFraction_heeds : Heeds all stop (generalFraction nested terminator) := by
  apply (fence?_heeds heeds terminator).bind
  intro opening
  apply (fence?_heeds heeds terminator).bind
  intro closing
  apply (argument_heeds heeds terminator).bind
  intro thickness
  apply (argument_heeds heeds terminator).bind
  intro style
  apply (arguments_heeds heeds terminator 2).bind
  intro parts
  split
  · exact .pure
  · exact .pure

theorem sideScripts_heeds : Heeds all stop (sideScripts nested terminator) := by
  apply (arguments_heeds heeds terminator 3).bind
  intro nodes
  split
  · exact .pure
  · exact .refuseLast fun _ => trivial

section Blamed

/- The token that a command begins with, which is reported when the command cannot be read. -/
variable {t : Token} (listed : t ∈ all)

include listed

theorem skew_heeds : Heeds all stop (skew nested terminator t.span) := by
  apply (arguments_heeds heeds terminator 2).bind
  intro nodes
  split
  · dsimp only
    split
    · exact .pure
    · exact .refuse listed trivial
  · exact .refuseLast fun _ => trivial

theorem environment_heeds (header : Word.begins Word.environmentStart t.text) :
    Heeds all stop (environment nested t.span t.text) := by
  apply (optional_heeds heeds _).bind
  intro nodes
  split
  · split
    · exact .pure
    · exact .refuse listed header
  · exact .refuse listed header

theorem leftRight_heeds (left : t.text = "\\left") :
    Heeds all stop (leftRight nested t.span) := by
  have open' : (Cause.unbalancedDelimiter .left).IsFor t.text := left
  apply Heeds.next
  · exact fun c within _ => Heeds.refuse listed open' c within
  · intro delimiter _
    apply (optional_heeds heeds _).bind
    intro children
    split
    · exact .pure
    · exact .refuse listed left

theorem script_heeds (kind : ScriptKind) (mark : t.text = kind.token) (stack : List Node) :
    Heeds all stop (script nested terminator kind t.span stack) := by
  have operator : Cause.limitsRequireOperator.IsFor t.text := by
    cases kind with
    | sub => exact .inl mark
    | sup => exact .inr mark
  unfold script
  dsimp only
  split
  · rename_i cause conflict
    obtain rfl : cause = .doubleScript kind := by
      cases kind <;> simp [Script.conflict?] at conflict <;> exact conflict.2.symm
    exact .refuse listed mark
  · split
    · split
      · split
        · exact (argument_heeds heeds terminator).bind fun _ => .pure
        · exact .refuse listed operator
      · exact .refuse listed operator
    · exact (argument_heeds heeds terminator).bind fun _ => .pure

theorem infixFraction_heeds {fraction : InfixFraction} (known : (t.text, fraction) ∈ Shape.infixFractions)
    (stack : List Node) : Heeds all stop (infixFraction nested terminator fraction t.span stack) := by
  have command : t.text ∈ Shape.infixFractions.map (·.1) := List.mem_map_of_mem known
  have fences : Heeds all stop (infixFences nested terminator fraction) := by
    unfold infixFences
    split
    · apply (fence?_heeds heeds terminator).bind
      exact fun _ => (fence?_heeds heeds terminator).bind fun _ => .pure
    · exact .pure
  have bar : Heeds all stop (infixBar nested terminator fraction) := by
    unfold infixBar
    split
    · exact .pure
    · exact .pure
    · exact (argument_heeds heeds terminator).bind fun _ => .pure
  apply fences.bind
  intro delimiter
  apply bar.bind
  intro attributes
  apply (remainder_heeds heeds terminator).bind
  rintro ⟨under, marker⟩
  dsimp only
  split
  · exact .refuse listed command
  · split
    · exact .refuse listed command
    · exact .pure

end Blamed

theorem negation_heeds (symbols : SymbolTable) (stack : List Node) :
    Heeds all stop (negation symbols nested terminator stack) := by
  apply (argument_heeds heeds terminator).bind
  intro target
  split
  · exact .pure
  · exact .pure

theorem color_heeds (token : String) (stack : List Node) :
    Heeds all stop (color nested terminator token stack) := by
  apply (heeds.raw terminator).bind
  exact fun _ => (remainder_heeds heeds terminator).bind fun _ => .pure

theorem table_heeds (token : String) (stack : List Node) :
    Heeds all stop (table nested terminator token stack) := by
  apply (Heeds.nextIs _).bind
  intro follows
  split
  · apply Heeds.skip
    exact fun _ => (group_heeds heeds _).bind fun _ => .pure
  · exact (remainder_heeds heeds terminator).bind fun _ => .pure

omit heeds in
theorem mem_infixFractions {command : String} {fraction : InfixFraction}
    (found : Shape.of? command = some (.infixFraction fraction)) :
    (command, fraction) ∈ Shape.infixFractions := by
  obtain ⟨before, after, split, _⟩ := List.lookup_eq_some_iff.mp found
  have listed : (command, Shape.infixFraction fraction) ∈ Shape.commands := by
    rw [split]
    exact List.mem_append_right before (List.mem_cons_self ..)
  simpa [Shape.commands, Shape.single] using listed

theorem command_heeds (symbols : SymbolTable) {t : Token} (listed : t ∈ all) (stack : List Node) :
    Heeds all stop (command symbols nested terminator t stack) := by
  unfold command
  dsimp only
  cases found : shape? symbols t.text with
  | none => exact .pure
  | some shape =>
    cases shape with
    | nodes count => exact (arguments_heeds heeds terminator count).bind fun _ => .pure
    | reversed => exact (arguments_heeds heeds terminator 2).bind fun _ => .pure
    | negation => exact negation_heeds heeds terminator symbols stack
    | labelledArrow => exact (bracketed_heeds heeds terminator _ _).bind fun _ => .pure
    | space => exact (space_heeds heeds terminator t.text).bind fun _ => .pure
    | color => exact color_heeds heeds terminator t.text stack
    | style =>
      apply (heeds.raw terminator).bind
      exact fun _ => (argument_heeds heeds terminator).bind fun _ => .pure
    | rawText => exact (heeds.raw terminator).bind fun _ => .pure
    | link =>
      apply (heeds.raw terminator).bind
      exact fun _ => (arguments_heeds heeds terminator 1).bind fun _ => .pure
    | infixFraction fraction =>
      apply infixFraction_heeds heeds terminator listed ?_ stack
      apply mem_infixFractions
      unfold shape? at found
      split at found
      · rename_i shape known
        rw [known, found]
      · split at found
        · cases found
        · cases found
    | squareRoot => exact (bracketed_heeds heeds terminator _ _).bind fun _ => .pure
    | root => exact (root_heeds heeds terminator).bind fun _ => .pure
    | table => exact table_heeds heeds terminator t.text stack
    | generalFraction => exact (generalFraction_heeds heeds terminator).bind fun _ => .pure
    | sideScripts => exact (sideScripts_heeds heeds terminator).bind fun _ => .pure
    | skew => exact (skew_heeds heeds terminator listed).bind fun _ => .pure

theorem token_heeds (symbols : SymbolTable) {t : Token} (listed : t ∈ all) (stack : List Node) :
    Heeds all stop (token symbols nested terminator t stack) := by
  unfold token
  dsimp only
  split
  · rename_i right
    rw [Bool.and_eq_true, beq_iff_eq] at right
    exact .refuse listed right.1
  · split
    · rename_i middle
      rw [Bool.and_eq_true, beq_iff_eq] at middle
      exact .refuse listed middle.1
    · split
      · rename_i header
        exact (environment_heeds heeds listed header).bind fun _ => .pure
      · split
        · rename_i left
          exact (leftRight_heeds heeds listed (beq_iff_eq.mp left)).bind fun _ => .pure
        · split
          · exact (group_heeds heeds _).bind fun _ => .pure
          · split
            · rename_i mark
              exact script_heeds heeds terminator listed .sub (beq_iff_eq.mp mark) stack
            · split
              · rename_i mark
                exact script_heeds heeds terminator listed .sup (beq_iff_eq.mp mark) stack
              · split
                · exact .pure
                · exact command_heeds heeds terminator symbols listed stack

end Nested

/-! ## Sequences -/

theorem close_heeds (terminator : Option String) (limit : Limit) (stack : List Node) :
    Heeds all stop (close terminator limit true stack) := by
  unfold close
  dsimp only
  split
  · contradiction
  · split
    · exact .pure
    · split
      · split
        · intro c within
          exact ⟨within.left, within.stop, within.last⟩
        · exact .refuseLast fun _ => trivial
      · split
        · exact .refuseLast fun _ => trivial
        · exact .pure

theorem marker_heeds (text : String) : Heeds all stop (marker text) := by
  unfold marker
  split
  · exact Heeds.skip fun _ => .pure
  · exact .pure

/- At the end of the source a sequence that has read nothing reports the end, and so does no other. -/
theorem close_end_heeds (terminator : Option String) (limit : Limit) (consumed : Bool)
    (stack : List Node) {c : Cursor} (within : Within all stop c) (done : c.tokens = []) :
    HeedsAt all stop (close terminator limit consumed stack) c := by
  cases consumed with
  | false => exact Heeds.refuseEnd within done
  | true => exact close_heeds terminator limit stack c within

theorem turn_heeds (terminator : Option String) (limit : Limit)
    {step : Token → List Node → Reader Progress} {again : List Node → Reader (List Node)}
    (heeds : ∀ t ∈ all, ∀ stack, Heeds all stop (step t stack))
    (further : ∀ stack, Heeds all stop (again stack)) (consumed : Bool) (stack : List Node) :
    Heeds all stop (turn terminator limit step again consumed stack) := by
  have taking : Heeds all stop takePending := fun c within =>
    ⟨within.left, within.stop, within.last⟩
  apply taking.bind
  intro owed
  cases owed with
  | some marker =>
    dsimp only
    split
    · exact close_heeds terminator limit _
    · exact .refuseLast fun _ => trivial
  | none =>
    apply Heeds.next
    · exact fun c within done => close_end_heeds terminator limit consumed stack within done
    · intro t listed
      dsimp only
      split
      · split
        · exact (marker_heeds t.text).bind fun _ => close_heeds terminator limit _
        · exact .refuse listed trivial
      · apply (heeds t listed stack).bind
        intro progress
        split
        · exact close_heeds terminator limit _
        · exact further progress.stack

theorem sequence_heeds (symbols : SymbolTable) (budget : Nat) (terminator : Option String)
    (limit : Limit) (consumed : Bool) (stack : List Node) :
    Heeds all stop (sequence symbols terminator limit budget consumed stack) := by
  induction budget generalizing terminator limit consumed stack with
  | zero => exact fun _ _ => trivial
  | succ budget ih =>
    apply turn_heeds
    · intro t listed stack
      apply token_heeds ?_ terminator symbols listed stack
      constructor
      · exact rawArgument_heeds
      · exact fun terminator limit => ih terminator limit false []
    · exact fun stack => ih terminator limit true stack

end Reader

theorem Reader.HeedsAt.blames {α β : Type} {all : List Token} {stop : Nat} {r : Reader α}
    {c : Cursor} (heeds : HeedsAt all stop r c) {f : α × Cursor → β} {e : FormulaError}
    (refused : (r.run c).map f = .error (.refused e)) : Blames all stop e := by
  unfold HeedsAt at heeds
  change (r c).map f = .error (.refused e) at refused
  cases given : r c with
  | ok result =>
    rw [given] at refused
    cases refused
  | error failure =>
    rw [given] at heeds refused
    obtain rfl := Except.error.inj refused
    exact heeds

/- At the start nothing has been read, but the first turn takes a token, whatever was read last. -/
theorem ofTokens?_blames {symbols : SymbolTable} {tokens : List Token} {stop : Nat} {e : FormulaError}
    (refused : Formula.ofTokens? symbols tokens stop = .error (.refused e)) :
    Blames tokens stop e := by
  cases tokens with
  | nil => cases refused
  | cons t rest =>
    have within : Reader.Within (t :: rest) stop { tokens := t :: rest, last := t.span, stop } := by
      constructor
      · exact List.Subset.refl _
      · rfl
      · exact ⟨t, List.mem_cons_self .., rfl⟩
    have heeds := Reader.sequence_heeds symbols ((t :: rest).length + 1) none .unbounded false [] _ within
    have started : Reader.HeedsAt (t :: rest) stop
        (Reader.sequence symbols none .unbounded ((t :: rest).length + 1) false [])
        { tokens := t :: rest, last := ⟨0, 0⟩, stop } := heeds
    exact started.blames refused

theorem parse_blames (symbols : SymbolTable) (source : String) (e : FormulaError)
    (refused : Formula.parse symbols source = .error e) :
    Blames (Source.tokens symbols source) source.utf8ByteSize e := by
  unfold Formula.parse at refused
  dsimp only at refused
  split at refused
  · cases refused
  · rename_i given
    obtain rfl := Except.error.inj refused
    exact ofTokens?_blames given
  · obtain rfl := Except.error.inj refused
    exact .ending (.inl rfl)

theorem parse_blames_left :
    Formula.parse ⟨[]⟩ "x+\\left(" = .error ⟨⟨2, 7⟩, .unbalancedDelimiter .left⟩ ∧
      Blames (Source.tokens ⟨[]⟩ "x+\\left(") 8 ⟨⟨2, 7⟩, .unbalancedDelimiter .left⟩ := by
  have refused : Formula.parse ⟨[]⟩ "x+\\left(" = .error ⟨⟨2, 7⟩, .unbalancedDelimiter .left⟩ := by
    decide +kernel
  exact ⟨refused, parse_blames ⟨[]⟩ "x+\\left(" _ refused⟩

end FormulaMarkup

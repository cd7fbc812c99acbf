import FormulaMarkup.Formula.Parse
import FormulaMarkup.Proofs.Parsing.Agreement

/-!
Readers side by side. A relation between readers that holds of the readers of one token, and is kept
where readers are put one behind the other, holds of the readers of all commands, as far as it holds
of the nested sequences that these are handed. So two runs of the parser can be compared without
walking over the commands again. Main statement: a token is either refused by both readers at once,
or its readers are related.
-/
namespace FormulaMarkup

/-- The causes that a reader sees at its own token, before it takes another one. -/
def Cause.isPrompt : Cause → Bool
  | .doubleScript _ | .limitsRequireOperator => true
  | .unbalancedDelimiter command => command != .left
  | _ => false

namespace Reader

/-- A relation that readers which are put together in the same way stand in. Places that are in a
relation may be refused for all causes but the prompt ones. -/
structure Coupling (spans : Span → Span → Prop) (rel : {α : Type} → Reader α → Reader α → Prop) :
    Prop where
  pure : ∀ {α : Type} (a : α), rel (Pure.pure a) (Pure.pure a)
  bind : ∀ {α β : Type} {r s : Reader α} {f g : α → Reader β}, rel r s → (∀ a, rel (f a) (g a)) →
    rel (r >>= f) (s >>= g)
  refuse : ∀ {α : Type} {span span' : Span} {cause : Cause}, spans span span' →
    cause.isPrompt = false → rel (Reader.refuse span cause : Reader α) (Reader.refuse span' cause)
  refuseLast : ∀ {α : Type} {cause : Cause}, cause.isPrompt = false →
    rel (lastSpan >>= fun span => (Reader.refuse span cause : Reader α))
      (lastSpan >>= fun span => Reader.refuse span cause)
  nextIs : ∀ text, rel (Reader.nextIs text) (Reader.nextIs text)
  next : ∀ {α : Type} {f g : Option Token → Reader α}, rel (f none) (g none) →
    (∀ token token' : Token, token.text = token'.text → rel (f (some token)) (g (some token'))) →
    rel (next? >>= f) (next? >>= g)
  bracedText : rel Reader.bracedText Reader.bracedText
  optional : ∀ {nested nested' : Nested} {terminator : Option String},
    rel (nested.sequence terminator .unbounded) (nested'.sequence terminator .unbounded) →
    rel (Reader.optional nested terminator) (Reader.optional nested' terminator)

/-- Nested readers that stand in a relation. -/
structure CoupledNested (rel : {α : Type} → Reader α → Reader α → Prop) (nested nested' : Nested) :
    Prop where
  raw : ∀ terminator, rel (nested.raw terminator) (nested'.raw terminator)
  sequence : ∀ terminator limit, rel (nested.sequence terminator limit)
    (nested'.sequence terminator limit)

namespace Coupling

variable {spans : Span → Span → Prop} {rel : {α : Type} → Reader α → Reader α → Prop}
  (coupling : Coupling spans rel) {nested nested' : Nested} (coupled : CoupledNested rel nested nested') (terminator : Option String)

include coupling coupled

/-! ## Arguments -/

theorem group (closing : String) :
    rel (Reader.group nested closing) (Reader.group nested' closing) := by
  unfold Reader.group
  refine coupling.bind (coupling.optional (coupled.sequence _ _)) fun nodes => ?_
  split
  · exact coupling.pure _
  · exact coupling.pure _

theorem remainder : rel (Reader.remainder nested terminator) (Reader.remainder nested' terminator) := by
  unfold Reader.remainder
  refine coupling.bind (coupling.optional (coupled.sequence _ _)) fun nodes => ?_
  split
  · split
    · exact coupling.pure _
    · exact coupling.pure _
  · exact coupling.pure _

theorem argument : rel (Reader.argument nested terminator) (Reader.argument nested' terminator) :=
  coupling.bind (coupled.sequence terminator (.nodes 1)) fun _ => coupling.pure _

theorem fence? : rel (Reader.fence? nested terminator) (Reader.fence? nested' terminator) := by
  refine coupling.bind (coupled.raw terminator) fun raw => ?_
  dsimp only
  split
  · exact coupling.bind coupling.bracedText fun _ => coupling.pure _
  · exact coupling.bind (coupling.pure _) fun _ => coupling.pure _

/-! ## Commands with a node of their own -/

theorem bracketed (labelled : List Node → Node → Node) (bare : Node → Node) :
    rel (Reader.bracketed nested terminator labelled bare)
      (Reader.bracketed nested' terminator labelled bare) := by
  have argument := coupling.argument coupled terminator
  refine coupling.bind (coupling.nextIs _) fun follows => ?_
  have labelled' := coupling.bind (coupling.group coupled "]") fun label =>
    coupling.bind argument fun base => coupling.pure (labelled label base)
  split
  · exact coupling.next labelled' fun _ _ _ => labelled'
  · exact coupling.bind argument fun base => coupling.pure (bare base)

theorem space (token : String) :
    rel (Reader.space nested terminator token) (Reader.space nested' terminator token) := by
  refine coupling.bind (coupling.argument coupled terminator) fun width => ?_
  dsimp only
  split
  · exact coupling.refuseLast rfl
  · exact coupling.pure _

theorem root : rel (Reader.root nested terminator) (Reader.root nested' terminator) :=
  coupling.bind (coupling.group coupled "\\of") fun _ =>
    coupling.bind (coupling.argument coupled terminator) fun _ => coupling.pure _

theorem generalFraction :
    rel (Reader.generalFraction nested terminator) (Reader.generalFraction nested' terminator) := by
  have fence := coupling.fence? coupled terminator
  have argument := coupling.argument coupled terminator
  refine coupling.bind fence fun opening => coupling.bind fence fun closing =>
    coupling.bind argument fun thickness => coupling.bind argument fun style =>
      coupling.bind (coupled.sequence terminator (.nodes 2)) fun parts => ?_
  split
  · exact coupling.pure _
  · exact coupling.pure _

theorem sideScripts :
    rel (Reader.sideScripts nested terminator) (Reader.sideScripts nested' terminator) := by
  refine coupling.bind (coupled.sequence terminator (.nodes 3)) fun nodes => ?_
  split
  · exact coupling.pure _
  · exact coupling.refuseLast rfl

theorem skew {span span' : Span} (places : spans span span') :
    rel (Reader.skew nested terminator span) (Reader.skew nested' terminator span') := by
  refine coupling.bind (coupled.sequence terminator (.nodes 2)) fun nodes => ?_
  split
  · dsimp only
    split
    · exact coupling.pure _
    · exact coupling.refuse places rfl
  · exact coupling.refuseLast rfl

theorem environment {span span' : Span} (places : spans span span') (header : String) :
    rel (Reader.environment nested span header) (Reader.environment nested' span' header) := by
  refine coupling.bind (coupling.optional (coupled.sequence _ _)) fun nodes => ?_
  split
  · split
    · exact coupling.pure _
    · exact coupling.refuse places rfl
  · exact coupling.refuse places rfl

theorem leftRight {span span' : Span} (places : spans span span') :
    rel (Reader.leftRight nested span) (Reader.leftRight nested' span') := by
  refine coupling.next (coupling.refuse places rfl) fun delimiter delimiter' same => ?_
  dsimp only
  rw [same]
  refine coupling.bind (coupling.optional (coupled.sequence _ _)) fun children => ?_
  split
  · exact coupling.pure _
  · exact coupling.refuse places rfl

/-! ## Commands that change the stack -/

theorem negation (symbols : SymbolTable) (stack : List Node) :
    rel (Reader.negation symbols nested terminator stack)
      (Reader.negation symbols nested' terminator stack) := by
  refine coupling.bind (coupling.argument coupled terminator) fun target => ?_
  split
  · exact coupling.pure _
  · exact coupling.pure _

theorem color (token : String) (stack : List Node) :
    rel (Reader.color nested terminator token stack) (Reader.color nested' terminator token stack) :=
  coupling.bind (coupled.raw terminator) fun _ =>
    coupling.bind (coupling.remainder coupled terminator) fun _ => coupling.pure _

theorem table (token : String) (stack : List Node) :
    rel (Reader.table nested terminator token stack) (Reader.table nested' terminator token stack) := by
  refine coupling.bind (coupling.nextIs _) fun follows => ?_
  have braced := coupling.bind (coupling.group coupled Word.closeBrace) fun nodes =>
    coupling.pure (⟨.withChildren token nodes :: stack, false⟩ : Progress)
  split
  · exact coupling.next braced fun _ _ _ => braced
  · exact coupling.bind (coupling.remainder coupled terminator) fun _ => coupling.pure _

theorem infixFraction (fraction : InfixFraction) {span span' : Span} (places : spans span span')
    (stack : List Node) :
    rel (Reader.infixFraction nested terminator fraction span stack)
      (Reader.infixFraction nested' terminator fraction span' stack) := by
  have fence := coupling.fence? coupled terminator
  have fences : rel (infixFences nested terminator fraction) (infixFences nested' terminator fraction) := by
    unfold infixFences
    split
    · exact coupling.bind fence fun _ => coupling.bind fence fun _ => coupling.pure _
    · exact coupling.pure _
  have bar : rel (infixBar nested terminator fraction) (infixBar nested' terminator fraction) := by
    unfold infixBar
    split
    · exact coupling.pure _
    · exact coupling.pure _
    · exact coupling.bind (coupling.argument coupled terminator) fun _ => coupling.pure _
  refine coupling.bind fences fun delimiter => coupling.bind bar fun attributes =>
    coupling.bind (coupling.remainder coupled terminator) ?_
  rintro ⟨under, marker⟩
  dsimp only
  split
  · exact coupling.refuse places rfl
  · split
    · exact coupling.refuse places rfl
    · exact coupling.pure _

omit coupled in
theorem push {r s : Reader Node} (same : rel r s) (stack : List Node) :
    rel (r >>= fun node => Pure.pure (⟨node :: stack, false⟩ : Progress))
      (s >>= fun node => Pure.pure ⟨node :: stack, false⟩) :=
  coupling.bind same fun _ => coupling.pure _

theorem command (symbols : SymbolTable) {token token' : Token} (same : token.text = token'.text)
    (places : spans token.span token'.span) (stack : List Node) :
    rel (Reader.command symbols nested terminator token stack)
      (Reader.command symbols nested' terminator token' stack) := by
  have push {r s : Reader Node} (same : rel r s) := coupling.push same stack
  have nodes (count : Nat) := coupled.sequence terminator (.nodes count)
  have argument := coupling.argument coupled terminator
  unfold Reader.command
  rw [← same]
  dsimp only
  split
  · exact coupling.pure _
  · exact coupling.bind (nodes _) fun _ => coupling.pure _
  · exact coupling.bind (nodes 2) fun _ => coupling.pure _
  · exact coupling.negation coupled terminator symbols stack
  · exact push (coupling.bracketed coupled terminator _ _)
  · exact push (coupling.space coupled terminator _)
  · exact coupling.color coupled terminator _ stack
  · exact coupling.bind (coupled.raw terminator) fun _ => coupling.bind argument fun _ => coupling.pure _
  · exact coupling.bind (coupled.raw terminator) fun _ => coupling.pure _
  · exact coupling.bind (coupled.raw terminator) fun _ =>
      coupling.bind (nodes 1) fun _ => coupling.pure _
  · exact coupling.infixFraction coupled terminator _ places stack
  · exact push (coupling.bracketed coupled terminator _ _)
  · exact push (coupling.root coupled terminator)
  · exact coupling.table coupled terminator _ stack
  · exact push (coupling.generalFraction coupled terminator)
  · exact push (coupling.sideScripts coupled terminator)
  · exact push (coupling.skew coupled terminator places)

end Coupling

/-! ## All tokens -/

/-- Two readers that refuse their own tokens for the same prompt cause, and read nothing. -/
def RefuseBoth {α : Type} (span span' : Span) (r s : Reader α) : Prop :=
  ∃ cause : Cause, cause.isPrompt = true ∧ r = refuse span cause ∧ s = refuse span' cause

theorem RefuseBoth.bind {α β : Type} {span span' : Span} {r s : Reader α} {f g : α → Reader β}
    (refused : RefuseBoth span span' r s) : RefuseBoth span span' (r >>= f) (s >>= g) := by
  obtain ⟨cause, prompt, rfl, rfl⟩ := refused
  exact ⟨cause, prompt, rfl, rfl⟩

theorem conflict_isPrompt {kind : ScriptKind} {node : Node} {cause : Cause}
    (conflict : Script.conflict? kind node = some cause) : cause.isPrompt = true := by
  unfold Script.conflict? at conflict
  cases kind with
  | sub | sup =>
    dsimp only at conflict
    split at conflict
    · cases conflict
      rfl
    · cases conflict

namespace Coupling

variable {spans : Span → Span → Prop} {rel : {α : Type} → Reader α → Reader α → Prop}
  (coupling : Coupling spans rel) {nested nested' : Nested} (coupled : CoupledNested rel nested nested') (terminator : Option String)

include coupling coupled

theorem script (kind : ScriptKind) (span span' : Span) (stack : List Node) :
    RefuseBoth span span' (Reader.script nested terminator kind span stack)
        (Reader.script nested' terminator kind span' stack) ∨
      rel (Reader.script nested terminator kind span stack)
        (Reader.script nested' terminator kind span' stack) := by
  have attached (f : Node → Progress) := coupling.bind (coupling.argument coupled terminator)
    fun script => coupling.pure (f script)
  unfold Reader.script
  dsimp only
  split
  · rename_i cause conflict
    exact .inl ⟨cause, conflict_isPrompt conflict, rfl, rfl⟩
  · split
    · split
      · split
        · exact .inr (attached _)
        · exact .inl ⟨_, rfl, rfl, rfl⟩
      · exact .inl ⟨_, rfl, rfl, rfl⟩
    · exact .inr (attached _)

/-- Two tokens with the same text are refused at once, for the same cause, or read in the same way. -/
theorem token (symbols : SymbolTable) {token token' : Token} (same : token.text = token'.text)
    (places : spans token.span token'.span) (stack : List Node) :
    RefuseBoth token.span token'.span (Reader.token symbols nested terminator token stack)
        (Reader.token symbols nested' terminator token' stack) ∨
      rel (Reader.token symbols nested terminator token stack)
        (Reader.token symbols nested' terminator token' stack) := by
  have push {r s : Reader Node} (same : rel r s) := coupling.push same stack
  unfold Reader.token
  rw [← same]
  dsimp only
  split
  · exact .inl ⟨_, rfl, rfl, rfl⟩
  split
  · exact .inl ⟨_, rfl, rfl, rfl⟩
  split
  · exact .inr (push (coupling.environment coupled places _))
  split
  · exact .inr (push (coupling.leftRight coupled places))
  split
  · exact .inr (coupling.bind (coupling.group coupled _) fun _ => coupling.pure _)
  split
  · exact coupling.script coupled terminator .sub _ _ stack
  split
  · exact coupling.script coupled terminator .sup _ _ stack
  split
  · exact .inr (coupling.pure _)
  · exact .inr (coupling.command coupled terminator symbols same places stack)

end Coupling

end Reader

end FormulaMarkup

import FormulaMarkup.Proofs.Parsing.Contained

/-!
Tokens in other surroundings. Tokens that are contained there are read once up to the end of the source and
once within a sequence that goes on behind them. The two runs are followed side by side: one lemma for each
reader, from two cursors before the same tokens to two cursors behind them. What runs up to the end of the
source runs up to the terminator in the other run, which takes it, or is owed it from within an argument.
-/
namespace FormulaMarkup

open Wait

/-! ## Two cursors -/

/-- Where tokens are put: the terminator of the sequence around them, whether they may run up to its end, and
what stands behind them. -/
structure Surroundings where
  terminator : Option String
  runs : Bool
  behind : List Token

namespace Surroundings

/-- Where tokens may run up to the end of the sequence, its terminator stands right behind them. It is a token
of its own. -/
structure Sound (around : Surroundings) : Prop where
  known : Closing around.terminator
  ends : around.runs = true → ∃ mark rest, around.behind = mark :: rest ∧
    around.terminator = some mark.text ∧ mark.text ≠ "\\right"

/-- Two cursors before the same tokens of the source, with these waits. -/
structure Beside (around : Surroundings) (waits : List Wait) (c d : Cursor) : Prop where
  free : c.pending = none
  free' : d.pending = none
  genuine : Genuine (c.tokens.map (·.text))
  contained : Wait.contained around.terminator around.runs waits (c.tokens.map (·.text)) = true
  tokens : d.tokens = c.tokens ++ around.behind

/-- The end of the source, and a cursor behind the terminator that the tokens have run up to. -/
structure Over (around : Surroundings) (c d : Cursor) : Prop where
  runs : around.runs = true
  free : c.pending = none
  free' : d.pending = none
  done : c.tokens = []
  left : d.tokens = around.behind.tail

/-- Two cursors in the outermost sequences: before the same tokens, or at the end of the source and behind the
terminator that is owed. -/
inductive Stands (around : Surroundings) (c d : Cursor) : Prop
  | beside (here : around.Beside [upTo none] c d)
  | owed {closing : String} (runs : around.runs = true) (ends : around.terminator = some closing)
    (free : c.pending = none) (done : c.tokens = []) (owes : d.pending = some (.leaf closing))
    (left : d.tokens = around.behind.tail)

/-- All that is left has been read, and the terminator with it. -/
def Finishes (around : Surroundings) (nodes nodes' : List Node) (c d : Cursor) : Prop :=
  ∃ closing, around.terminator = some closing ∧ nodes' = nodes ++ [.leaf closing] ∧ around.Over c d

/-- What a token makes of the sequence around it: the same in both runs, with the terminator if it runs up to
the end. -/
inductive Goes (around : Surroundings) (p q : Progress) (c d : Cursor) : Prop
  | on (same : q = p) (going : p.finished = false) (stands : around.Stands c d)
  | finished {closing : String} (ends : around.terminator = some closing) (finished : p.finished = true)
    (made : q = ⟨.leaf closing :: p.stack, true⟩) (past : around.Over c d)

end Surroundings

namespace Reader

/-- Where the first reader gives something, the second one does so from its own cursor. -/
def Mirrors {α β : Type} (r : Reader α) (q : Reader β) (c d : Cursor)
    (post : α → β → Cursor → Cursor → Prop) : Prop :=
  ∀ a after, r c = .ok (a, after) → ∃ b last, q d = .ok (b, last) ∧ post a b after last

/-- The same value. -/
def Agrees {α : Type} (state : Cursor → Cursor → Prop) (a b : α) (c d : Cursor) : Prop := a = b ∧ state c d

/-- Where the first reader gives something, the second one gives the same, or the source has come to its end
too early. -/
def Opens {α : Type} (r q : Reader α) (c d : Cursor) (state : Cursor → Cursor → Prop)
    (unclosed : α → Cursor → Prop) : Prop :=
  ∀ a after, r c = .ok (a, after) → (∃ last, q d = .ok (a, last) ∧ state after last) ∨ unclosed a after

/-- A reader that does not succeed. -/
def Fails {α : Type} (r : Reader α) (c : Cursor) : Prop := ∀ a after, r c ≠ .ok (a, after)

theorem Fails.bind {α β : Type} {r : Reader α} {f : α → Reader β} {c : Cursor} (fails : Fails r c) :
    Fails (r >>= f) c := by
  intro b after given
  obtain ⟨a, mid, read, -⟩ := bind_ok_iff.mp given
  exact fails a mid read

namespace Mirrors

variable {α β γ δ : Type} {c d : Cursor}

theorem pure {a : α} {b : β} {post : α → β → Cursor → Cursor → Prop} (holds : post a b c d) :
    Mirrors (Pure.pure a) (Pure.pure b) c d post := by
  rintro _ _ ⟨⟩
  exact ⟨b, d, rfl, holds⟩

theorem bind {r : Reader α} {q : Reader β} {f : α → Reader γ} {g : β → Reader δ}
    {mid : α → β → Cursor → Cursor → Prop} {post : γ → δ → Cursor → Cursor → Prop}
    (first : Mirrors r q c d mid)
    (andThen : ∀ a b after last, mid a b after last → Mirrors (f a) (g b) after last post) :
    Mirrors (r >>= f) (q >>= g) c d post := by
  intro x after given
  obtain ⟨a, middle, read, given⟩ := bind_ok_iff.mp given
  obtain ⟨b, middle', read', holds⟩ := first a middle read
  obtain ⟨y, last, given', holds'⟩ := andThen a b middle middle' holds x after given
  exact ⟨y, last, by rw [bind_ok read', given'], holds'⟩

/-- Two readers with the same value. -/
theorem same {r q : Reader α} {f : α → Reader γ} {g : α → Reader δ} {state : Cursor → Cursor → Prop}
    {post : γ → δ → Cursor → Cursor → Prop} (first : Mirrors r q c d (Agrees state))
    (andThen : ∀ a after last, state after last → Mirrors (f a) (g a) after last post) :
    Mirrors (r >>= f) (q >>= g) c d post := by
  refine first.bind ?_
  rintro a _ after last ⟨rfl, here⟩
  exact andThen a after last here

theorem fails {r : Reader α} {q : Reader β} {post : α → β → Cursor → Cursor → Prop} (never : Fails r c) :
    Mirrors r q c d post :=
  fun a after given => absurd given (never a after)

/-- A reader behind which the source must not have come to its end too early. -/
theorem closed {r q : Reader α} {f : α → Reader γ} {g : α → Reader δ} {state : Cursor → Cursor → Prop}
    {unclosed : α → Cursor → Prop} {post : γ → δ → Cursor → Cursor → Prop}
    (first : Opens r q c d state unclosed)
    (never : ∀ a after, unclosed a after → Fails (f a) after)
    (andThen : ∀ a after last, state after last → Mirrors (f a) (g a) after last post) :
    Mirrors (r >>= f) (q >>= g) c d post := by
  intro x after given
  obtain ⟨a, middle, read, given⟩ := bind_ok_iff.mp given
  rcases first a middle read with ⟨middle', read', here⟩ | early
  · obtain ⟨y, last, given', holds⟩ := andThen a middle middle' here x after given
    exact ⟨y, last, by rw [bind_ok read', given'], holds⟩
  · exact absurd given (never a middle early x after)

/-- A reader that looks for the same text. -/
theorem nextIs {text : String} {f : Bool → Reader γ} {g : Bool → Reader δ}
    {post : γ → δ → Cursor → Cursor → Prop}
    (found : d.tokens.head?.any (·.text == text) = c.tokens.head?.any (·.text == text))
    (andThen : Mirrors (f (c.tokens.head?.any (·.text == text))) (g (c.tokens.head?.any (·.text == text))) c d
      post) :
    Mirrors (Reader.nextIs text >>= f) (Reader.nextIs text >>= g) c d post := by
  unfold Mirrors
  rw [bind_ok (nextIs_ok text c), bind_ok (nextIs_ok text d), found]
  exact andThen

/-- A reader that takes a token which is known. -/
theorem next {token : Token} {rest rest' : List Token} {f : Option Token → Reader γ}
    {g : Option Token → Reader δ} {post : γ → δ → Cursor → Cursor → Prop}
    (left : c.tokens = token :: rest) (left' : d.tokens = token :: rest')
    (andThen : Mirrors (f (some token)) (g (some token)) (skip c token rest) (skip d token rest') post) :
    Mirrors (next? >>= f) (next? >>= g) c d post := by
  unfold Mirrors
  rw [bind_ok (next?_cons left), bind_ok (next?_cons left')]
  exact andThen

theorem refuse {span : Span} {cause : Cause} {q : Reader β} {post : α → β → Cursor → Cursor → Prop} :
    Mirrors (Reader.refuse span cause) q c d post :=
  fun _ _ given => absurd given refuse_ne_ok

theorem refuseLast {cause : Cause} {q : Reader β} {post : α → β → Cursor → Cursor → Prop} :
    Mirrors (lastSpan >>= fun span => Reader.refuse span cause) q c d post :=
  fun _ _ given => absurd given refuseLast_ne_ok

end Mirrors

end Reader

namespace Surroundings

open Reader (Agrees Fails Mirrors Nested Opens Unclosed skip)

variable {around : Surroundings} {waits : List Wait} {wait : Wait} {c d : Cursor}

/-! ## Readers of one token -/

/-- One token further. -/
theorem Beside.next {token : Token} {rest : List Token} {next : List Wait} (here : around.Beside waits c d)
    (left : c.tokens = token :: rest) (moved : advance waits token.text = some next) :
    d.tokens = token :: (rest ++ around.behind) ∧
      around.Beside next (skip c token rest) (skip d token (rest ++ around.behind)) := by
  have genuine := here.genuine
  have contained := here.contained
  rw [left, List.map_cons] at genuine contained
  refine ⟨by rw [here.tokens, left, List.cons_append], here.free, here.free', ?_, ?_, rfl⟩
  · exact genuine.suffix (List.suffix_cons _ _)
  · exact contained_advance contained moved

/-- A bracket that does not follow is not waited for. -/
theorem Beside.unanswered {token : Token} {rest : List Token} (here : around.Beside (bracket :: waits) c d)
    (left : c.tokens = token :: rest) (other : token.text ≠ "[") : around.Beside waits c d := by
  have contained := here.contained
  rw [left, List.map_cons] at contained
  refine ⟨here.free, here.free', here.genuine, ?_, here.tokens⟩
  rw [left, List.map_cons]
  exact contained_unanswered contained other

/-- A token that is an argument of its own is not the terminator. -/
theorem Beside.rawArgument (here : around.Beside waits c d) (outer : outermost waits = true) :
    Mirrors (Reader.rawArgument none) (Reader.rawArgument around.terminator) c d fun text text' after last =>
      text = text' ∧ ∀ next, advance waits text = some next → around.Beside next after last := by
  intro text after given
  obtain ⟨-, token, rest, left, rfl, rfl, -⟩ := Reader.rawArgument_ok given
  have contained := here.contained
  rw [left, List.map_cons] at contained
  have other := (contained_cons.mp contained).other outer
  have left' : d.tokens = token :: (rest ++ around.behind) := by rw [here.tokens, left, List.cons_append]
  exact ⟨_, _, Reader.rawArgument_cons here.free' left' other, rfl, fun next moved => (here.next left moved).2⟩

theorem Beside.bracedText (here : around.Beside (text :: waits) c d) :
    Mirrors Reader.bracedText Reader.bracedText c d (Agrees (around.Beside waits)) := by
  rintro _ _ ⟨⟩
  obtain ⟨brace, behind⟩ := contained_text here.contained
  obtain ⟨same, shorter⟩ := Reader.takeWhile_brace around.behind brace
  have read : ∃ span, Reader.bracedText d = .ok (_, { d with tokens := d.tokens.drop _, last := span }) :=
    ⟨_, rfl⟩
  rw [here.tokens, same, List.drop_append_of_le_length shorter] at read
  obtain ⟨span, read⟩ := read
  refine ⟨_, _, read, rfl, here.free, here.free', ?_, ?_, rfl⟩
  · exact here.genuine.suffix ((List.drop_suffix _ _).map _)
  · rw [List.takeWhile_map, List.length_map, ← List.map_drop] at behind
    exact behind

/-! ## Arguments -/

/-- Nested readers of which the first ones read the source and the second ones what is put elsewhere. -/
structure Mirrored (around : Surroundings) (nested nested' : Nested) : Prop where
  raw : nested.raw = Reader.rawArgument
  raw' : nested'.raw = Reader.rawArgument
  inner : ∀ {closing : String} {c d : Cursor}, Closing (some closing) →
    around.Beside [upTo (some closing), upTo none] c d →
    Opens (Reader.optional nested (some closing)) (Reader.optional nested' (some closing)) c d
      (around.Beside [upTo none]) (Unclosed closing)
  starved : ∀ {count : Nat} {c : Cursor}, c.pending = none → c.tokens = [] →
    Fails (nested.sequence none (.nodes count)) c
  arguments : ∀ {count : Nat} {c d : Cursor}, around.Stands c d →
    Mirrors (nested.sequence none (.nodes count)) (nested'.sequence around.terminator (.nodes count)) c d
      (Agrees around.Stands)
  rest : ∀ {c d : Cursor}, around.runs = true → around.Stands c d →
    Mirrors (Reader.optional nested none) (Reader.optional nested' around.terminator) c d around.Finishes

variable {nested nested' : Nested} (both : Mirrored around nested nested')

include both

theorem Mirrored.group {closing : String} (known : Closing (some closing))
    (here : around.Beside [upTo (some closing), upTo none] c d) :
    Opens (Reader.group nested closing) (Reader.group nested' closing) c d (around.Beside [upTo none])
      fun _ after => after.pending = none ∧ after.tokens = [] ∧ closing ≠ Word.closeBrace := by
  intro nodes after given
  obtain ⟨all, read, rfl⟩ := Reader.group_ok given
  rcases both.inner known here all after read with ⟨last, read', behind⟩ | early
  · refine .inl ⟨last, ?_, behind⟩
    rw [Reader.group, Reader.bind_ok read', Reader.stripped]
    split
    · rfl
    · rfl
  · exact .inr ⟨early.free, early.done, early.unbraced⟩

/-- A group in braces is closed. -/
theorem Mirrored.braced (here : around.Beside [upTo (some Word.closeBrace), upTo none] c d) :
    Mirrors (Reader.group nested Word.closeBrace) (Reader.group nested' Word.closeBrace) c d
      (Agrees (around.Beside [upTo none])) := by
  intro nodes after given
  have known : Closing (some Word.closeBrace) := closing_of_mem (by decide)
  rcases both.group known here nodes after given with ⟨last, read, behind⟩ | ⟨-, -, other⟩
  · exact ⟨nodes, last, read, rfl, behind⟩
  · exact absurd rfl other

theorem Mirrored.argument (stands : around.Stands c d) :
    Mirrors (Reader.argument nested none) (Reader.argument nested' around.terminator) c d
      (Agrees around.Stands) := by
  unfold Reader.argument
  exact (both.arguments stands).same fun nodes after last behind => .pure ⟨rfl, behind⟩

/-- At the end of the source there is no argument. -/
theorem Mirrored.argument_starved (free : c.pending = none) (done : c.tokens = []) :
    Fails (Reader.argument nested none) c :=
  (both.starved free done).bind

theorem Mirrored.rawArgument (here : around.Beside waits c d) (outer : outermost waits = true) :
    Mirrors (nested.raw none) (nested'.raw around.terminator) c d fun text text' after last =>
      text = text' ∧ ∀ next, advance waits text = some next → around.Beside next after last := by
  rw [both.raw, both.raw']
  exact here.rawArgument outer

theorem Mirrored.fence? (here : around.Beside (fence :: waits) c d) (outer : outermost (fence :: waits) = true) :
    Mirrors (Reader.fence? nested none) (Reader.fence? nested' around.terminator) c d
      (Agrees (around.Beside waits)) := by
  unfold Reader.fence?
  refine (both.rawArgument here outer).bind ?_
  rintro raw _ after last ⟨rfl, moved⟩
  dsimp only
  split
  · rename_i opens
    have inside := moved (text :: waits) (by rw [advance, if_pos (beq_iff_eq.mp opens)])
    exact inside.bracedText.same fun _ _ _ behind => .pure ⟨rfl, behind⟩
  · rename_i other
    have behind := moved waits (by rw [advance, if_neg (by simpa using other)])
    have kept : Mirrors (Pure.pure raw) (Pure.pure raw) after last (Agrees (around.Beside waits)) :=
      .pure ⟨rfl, behind⟩
    exact kept.same fun _ _ _ behind => .pure ⟨rfl, behind⟩

/-- All that is left, apart from the terminator. -/
theorem Mirrored.remainder (runs : around.runs = true) (stands : around.Stands c d) :
    Mirrors (Reader.remainder nested none) (Reader.remainder nested' around.terminator) c d
      fun result result' after last => ∃ closing, around.terminator = some closing ∧ result.2 = none ∧
        result' = (result.1, some (.leaf closing)) ∧ around.Over after last := by
  unfold Reader.remainder
  refine (both.rest runs stands).bind ?_
  rintro nodes _ after last ⟨closing, ends, rfl, past⟩
  rw [ends]
  simp only [List.getLast?_append, List.getLast?_singleton, Option.some_or, Node.is, Node.leaf, beq_self_eq_true,
    if_true, List.dropLast_concat]
  exact .pure ⟨closing, rfl, rfl, rfl, past⟩

/-! ## Commands with a node of their own -/

theorem Mirrored.bracketed (labelled : List Node → Node → Node) (bare : Node → Node)
    (here : around.Beside [bracket, upTo none] c d) :
    Mirrors (Reader.bracketed nested none labelled bare)
      (Reader.bracketed nested' around.terminator labelled bare) c d (Agrees around.Stands) := by
  unfold Reader.bracketed
  cases left : c.tokens with
  | nil =>
    refine .fails fun node after given => ?_
    rw [Reader.bind_ok (Reader.nextIs_ok "[" c), left] at given
    exact (both.argument_starved here.free left).bind node after given
  | cons token rest =>
    have head : d.tokens.head?.any (·.text == "[") = c.tokens.head?.any (·.text == "[") := by
      rw [here.tokens, left, List.cons_append, List.head?_cons, List.head?_cons]
    refine .nextIs head ?_
    split
    · rename_i follows
      have opens : token.text = "[" := by simpa [left] using follows
      have moved : advance [bracket, upTo none] token.text = some [upTo (some "]"), upTo none] := by
        rw [advance, if_pos opens]
      obtain ⟨left', inside⟩ := here.next left moved
      refine .next left left' ?_
      refine .closed (both.group (closing_of_mem (by decide)) inside) ?_ fun label _ _ behind => ?_
      · rintro label after ⟨free, done, -⟩
        exact (both.argument_starved free done).bind
      · exact (both.argument (.beside behind)).same fun base _ _ stands => .pure ⟨rfl, stands⟩
    · rename_i other
      have behind := here.unanswered left fun opens => other (by simp [left, opens])
      exact (both.argument (.beside behind)).same fun base _ _ stands => .pure ⟨rfl, stands⟩

theorem Mirrored.root (here : around.Beside [upTo (some "\\of"), upTo none] c d) :
    Mirrors (Reader.root nested none) (Reader.root nested' around.terminator) c d (Agrees around.Stands) := by
  unfold Reader.root
  refine .closed (both.group (closing_of_mem (by decide)) here) ?_ fun index _ _ behind => ?_
  · rintro index after ⟨free, done, -⟩
    exact (both.argument_starved free done).bind
  · exact (both.argument (.beside behind)).same fun radicand _ _ stands => .pure ⟨rfl, stands⟩

theorem Mirrored.space (token : String) (stands : around.Stands c d) :
    Mirrors (Reader.space nested none token) (Reader.space nested' around.terminator token) c d
      (Agrees around.Stands) := by
  unfold Reader.space
  refine (both.argument stands).same fun width _ _ stands => ?_
  dsimp only
  split
  · exact .refuseLast
  · exact .pure ⟨rfl, stands⟩

theorem Mirrored.generalFraction (here : around.Beside [fence, fence, upTo none] c d) :
    Mirrors (Reader.generalFraction nested none) (Reader.generalFraction nested' around.terminator) c d
      (Agrees around.Stands) := by
  unfold Reader.generalFraction
  refine (both.fence? here rfl).same fun opening _ _ here => ?_
  refine (both.fence? here rfl).same fun closing _ _ here => ?_
  refine (both.argument (.beside here)).same fun thickness _ _ stands => ?_
  refine (both.argument stands).same fun style _ _ stands => ?_
  exact (both.arguments stands).same fun parts _ _ stands => .pure ⟨rfl, stands⟩

theorem Mirrored.sideScripts (stands : around.Stands c d) :
    Mirrors (Reader.sideScripts nested none) (Reader.sideScripts nested' around.terminator) c d
      (Agrees around.Stands) := by
  unfold Reader.sideScripts
  refine (both.arguments stands).same fun parts _ _ stands => ?_
  split
  · exact .pure ⟨rfl, stands⟩
  · exact .refuseLast

theorem Mirrored.skew (span : Span) (stands : around.Stands c d) :
    Mirrors (Reader.skew nested none span) (Reader.skew nested' around.terminator span) c d
      (Agrees around.Stands) := by
  unfold Reader.skew
  refine (both.arguments stands).same fun parts _ _ stands => ?_
  split
  · dsimp only
    split
    · exact .pure ⟨rfl, stands⟩
    · exact .refuse
  · exact .refuseLast

theorem Mirrored.environment (span : Span) {header : String}
    (here : around.Beside [upTo (some (ending header)), upTo none] c d) :
    Mirrors (Reader.environment nested span header) (Reader.environment nested' span header) c d
      (Agrees around.Stands) := by
  unfold Reader.environment
  refine .closed (both.inner (closing_ending header) here) ?_ fun nodes _ _ behind => ?_
  · intro nodes after early
    have other : nodes.getLast?.any (·.is (ending header)) = false := early.unnamed (namesEnd_ending header)
    rw [ending] at other
    rw [other, if_neg Bool.false_ne_true]
    exact fun _ _ => Reader.refuse_ne_ok
  · split
    · split
      · exact .pure ⟨rfl, .beside behind⟩
      · exact .refuse
    · exact .refuse

theorem Mirrored.leftRight (span : Span) (here : around.Beside [Wait.raw, upTo (some "\\right"), upTo none] c d) :
    Mirrors (Reader.leftRight nested span) (Reader.leftRight nested' span) c d (Agrees around.Stands) := by
  unfold Reader.leftRight
  cases left : c.tokens with
  | nil =>
    refine .fails fun node after given => ?_
    rw [Reader.bind_ok (Reader.next?_nil left)] at given
    exact Reader.refuse_ne_ok given
  | cons token rest =>
    obtain ⟨left', inside⟩ := here.next left rfl
    refine .next left left' ?_
    refine .closed (both.inner (closing_of_mem (by decide)) inside) ?_ fun children _ _ behind => ?_
    · intro children after early
      rw [early.unnamed (by decide), if_neg Bool.false_ne_true]
      exact fun _ _ => Reader.refuse_ne_ok
    · split
      · exact .pure ⟨rfl, .beside behind⟩
      · exact .refuse

/-! ## Commands that change the stack -/

theorem Mirrored.script (kind : ScriptKind) (span : Span) (stack : List Node) (stands : around.Stands c d) :
    Mirrors (Reader.script nested none kind span stack) (Reader.script nested' around.terminator kind span stack)
      c d around.Goes := by
  unfold Reader.script
  dsimp only
  split
  · exact .refuse
  · split
    · split
      · split
        · exact (both.argument stands).same fun argument _ _ stands => .pure (.on rfl rfl stands)
        · exact .refuse
      · exact .refuse
    · exact (both.argument stands).same fun argument _ _ stands => .pure (.on rfl rfl stands)

theorem Mirrored.negation (symbols : SymbolTable) (stack : List Node) (stands : around.Stands c d) :
    Mirrors (Reader.negation symbols nested none stack) (Reader.negation symbols nested' around.terminator stack)
      c d around.Goes := by
  unfold Reader.negation
  refine (both.argument stands).same fun target _ _ stands => ?_
  split
  · exact .pure (.on rfl rfl stands)
  · exact .pure (.on rfl rfl stands)

theorem Mirrored.color (token : String) (stack : List Node) (runs : around.runs = true)
    (here : around.Beside [Wait.raw, upTo none] c d) :
    Mirrors (Reader.color nested none token stack) (Reader.color nested' around.terminator token stack) c d
      around.Goes := by
  unfold Reader.color
  refine (both.rawArgument here rfl).bind ?_
  rintro value _ after last ⟨rfl, moved⟩
  refine (both.remainder runs (.beside (moved _ rfl))).bind ?_
  rintro ⟨nodes, _⟩ _ after last ⟨closing, ends, rfl, rfl, past⟩
  exact .pure (.finished ends rfl rfl past)

theorem Mirrored.table (token : String) (stack : List Node) (sound : around.Sound)
    (ends : around.runs = true ∨ c.tokens.head?.map (·.text) = some Word.openBrace)
    (here : around.Beside [upTo none] c d) :
    Mirrors (Reader.table nested none token stack) (Reader.table nested' around.terminator token stack) c d
      around.Goes := by
  have brace : d.tokens.head?.any (·.text == Word.openBrace) = c.tokens.head?.any (·.text == Word.openBrace) := by
    rw [here.tokens]
    cases left : c.tokens with
    | cons token rest => rfl
    | nil =>
      rw [left] at ends
      rcases ends with runs | absurd
      · obtain ⟨mark, rest, behind, closes, -⟩ := sound.ends runs
        have other : mark.text ≠ Word.openBrace := fun same =>
          sound.known.ne_openBrace (same ▸ closes.symm)
        simp [behind, other]
      · cases absurd
  unfold Reader.table
  refine .nextIs brace ?_
  split
  · rename_i follows
    cases left : c.tokens with
    | nil =>
      rw [left] at follows
      cases follows
    | cons token rest =>
      have opens : token.text = Word.openBrace := by simpa [left] using follows
      have moved : advance [upTo none] token.text = some [upTo (some Word.closeBrace), upTo none] := by
        rw [opens]
        rfl
      obtain ⟨left', inside⟩ := here.next left moved
      refine .next left left' ?_
      exact (both.braced inside).same fun body _ _ behind => .pure (.on rfl rfl (.beside behind))
  · rename_i other
    have runs : around.runs = true := by
      rcases ends with runs | follows
      · exact runs
      · cases left : c.tokens with
        | nil =>
          rw [left] at follows
          cases follows
        | cons token rest =>
          rw [left] at follows other
          exact absurd (beq_iff_eq.mpr (Option.some.inj follows)) other
    refine (both.remainder runs (.beside here)).bind ?_
    rintro ⟨nodes, _⟩ _ after last ⟨closing, ends, rfl, rfl, past⟩
    exact .pure (.finished ends rfl rfl past)

theorem Mirrored.infixFences (fraction : InfixFraction)
    (here : around.Beside ((if fraction.readsFences then [fence, fence] else []) ++ [upTo none]) c d) :
    Mirrors (Reader.infixFences nested none fraction) (Reader.infixFences nested' around.terminator fraction) c d
      (Agrees (around.Beside [upTo none])) := by
  unfold Reader.infixFences
  split at here
  · rename_i reads
    rw [if_pos reads, if_pos reads]
    refine (both.fence? here rfl).same fun opening _ _ here => ?_
    exact (both.fence? here rfl).same fun closing _ _ here => .pure ⟨rfl, here⟩
  · rename_i reads
    rw [if_neg reads, if_neg reads]
    exact .pure ⟨rfl, here⟩

theorem Mirrored.infixBar (fraction : InfixFraction) (stands : around.Stands c d) :
    Mirrors (Reader.infixBar nested none fraction) (Reader.infixBar nested' around.terminator fraction) c d
      (Agrees around.Stands) := by
  unfold Reader.infixBar
  split
  · exact .pure ⟨rfl, stands⟩
  · exact .pure ⟨rfl, stands⟩
  · exact (both.argument stands).same fun thickness _ _ stands => .pure ⟨rfl, stands⟩

theorem Mirrored.infixFraction (fraction : InfixFraction) (span : Span) (stack : List Node)
    (runs : around.runs = true)
    (here : around.Beside ((if fraction.readsFences then [fence, fence] else []) ++ [upTo none]) c d) :
    Mirrors (Reader.infixFraction nested none fraction span stack)
      (Reader.infixFraction nested' around.terminator fraction span stack) c d around.Goes := by
  unfold Reader.infixFraction
  refine (both.infixFences fraction here).same fun delimiter _ _ here => ?_
  refine (both.infixBar fraction (.beside here)).same fun attributes _ _ stands => ?_
  refine (both.remainder runs stands).bind ?_
  rintro ⟨under, _⟩ _ after last ⟨closing, ends, rfl, rfl, past⟩
  dsimp only
  split
  · exact .refuse
  · split
    · exact .refuse
    · exact .pure (.finished ends rfl rfl past)

/-! ## All commands -/

omit both in
/-- A node that has been read goes on the stack. -/
theorem push {r q : Reader Node} (stack : List Node) (same : Mirrors r q c d (Agrees around.Stands)) :
    Mirrors (r >>= fun node => Pure.pure ⟨node :: stack, false⟩)
      (q >>= fun node => Pure.pure ⟨node :: stack, false⟩) c d around.Goes :=
  same.same fun _ _ _ stands => .pure (.on rfl rfl stands)

omit both in
/-- A command with a shape that is not that of a font. -/
theorem shape_of {symbols : SymbolTable} {token : String} {shape : Shape}
    (found : Reader.shape? symbols token = some shape) (other : shape ≠ .nodes 1) :
    Shape.of? token = some shape := by
  unfold Reader.shape? at found
  cases named : Shape.of? token with
  | some shape' =>
    rw [named] at found
    exact found
  | none =>
    rw [named] at found
    dsimp only at found
    split at found
    · exact absurd (Option.some.inj found).symm other
    · cases found

theorem Mirrored.command (symbols : SymbolTable) {token : Token} (stack : List Node) (sound : around.Sound)
    (ends : around.runs = true ∨ runsOn token.text (c.tokens.head?.map (·.text)) = false)
    (here : around.Beside (ofShape (Shape.of? token.text) ++ [upTo none]) c d) :
    Mirrors (Reader.command symbols nested none token stack)
      (Reader.command symbols nested' around.terminator token stack) c d around.Goes := by
  rw [← Reader.ofShape_shape? symbols] at here
  unfold Reader.command
  dsimp only
  cases found : Reader.shape? symbols token.text with
  | none =>
    rw [found] at here
    exact .pure (.on rfl rfl (.beside here))
  | some shape =>
    rw [found] at here
    cases shape with
    | nodes count =>
      exact (both.arguments (.beside here)).same fun nodes _ _ stands => .pure (.on rfl rfl stands)
    | reversed =>
      exact (both.arguments (.beside here)).same fun nodes _ _ stands => .pure (.on rfl rfl stands)
    | negation => exact both.negation symbols stack (.beside here)
    | labelledArrow => exact push stack (both.bracketed _ _ here)
    | space => exact push stack (both.space token.text (.beside here))
    | color =>
      have named := shape_of found nofun
      have runs : around.runs = true := ends.resolve_right (by simp [runsOn, named])
      exact both.color token.text stack runs here
    | style =>
      refine (both.rawArgument here rfl).bind ?_
      rintro value _ after last ⟨rfl, moved⟩
      exact (both.argument (.beside (moved _ rfl))).same fun node _ _ stands => .pure (.on rfl rfl stands)
    | rawText =>
      refine (both.rawArgument here rfl).bind ?_
      rintro text _ after last ⟨rfl, moved⟩
      exact .pure (.on rfl rfl (.beside (moved _ rfl)))
    | link =>
      refine (both.rawArgument here rfl).bind ?_
      rintro target _ after last ⟨rfl, moved⟩
      exact (both.arguments (.beside (moved _ rfl))).same fun nodes _ _ stands => .pure (.on rfl rfl stands)
    | infixFraction fraction =>
      have named := shape_of found nofun
      have runs : around.runs = true := ends.resolve_right (by simp [runsOn, named])
      exact both.infixFraction fraction token.span stack runs here
    | squareRoot => exact push stack (both.bracketed _ _ here)
    | root => exact push stack (both.root here)
    | table =>
      have named := shape_of found nofun
      refine both.table token.text stack sound (ends.imp_right fun braced => ?_) here
      simpa [runsOn, named] using braced
    | generalFraction => exact push stack (both.generalFraction here)
    | sideScripts => exact push stack (both.sideScripts (.beside here))
    | skew => exact push stack (both.skew token.span (.beside here))

/-- A token that the source accepts is read to the same nodes. -/
theorem Mirrored.token (symbols : SymbolTable) {token : Token} (stack : List Node) (sound : around.Sound)
    (ends : around.runs = true ∨ runsOn token.text (c.tokens.head?.map (·.text)) = false)
    (here : around.Beside (opened token.text ++ [upTo none]) c d) :
    Mirrors (Reader.token symbols nested none token stack)
      (Reader.token symbols nested' around.terminator token stack) c d around.Goes := by
  unfold Reader.token
  dsimp only
  by_cases right : token.text = "\\right"
  · rw [if_pos (by simp [right])]
    exact .refuse
  by_cases middle : token.text = "\\middle"
  · rw [if_neg (by simp [right]), if_pos (by simp [middle])]
    exact .refuse
  have inside (word : String) (other : token.text ≠ word) (outside : Bool) :
      ¬ (token.text == word && outside) = true := by simp [other]
  rw [if_neg (inside _ right _), if_neg (inside _ right _), if_neg (inside _ middle _), if_neg (inside _ middle _)]
  split
  · rename_i begins
    simp only [opened, begins, if_true] at here
    exact push stack (both.environment token.span here)
  rename_i begins
  split
  · rename_i left
    simp only [opened, beq_iff_eq.mp left] at here
    exact push stack (both.leftRight token.span here)
  rename_i left
  split
  · rename_i opens
    simp only [opened, beq_iff_eq.mp opens] at here
    exact (both.braced here).same fun nodes _ _ behind => .pure (.on rfl rfl (.beside behind))
  rename_i opens
  split
  · rename_i script
    simp only [opened, beq_iff_eq.mp script] at here
    exact both.script .sub token.span stack (.beside here)
  split
  · rename_i script
    simp only [opened, beq_iff_eq.mp script] at here
    exact both.script .sup token.span stack (.beside here)
  split
  · rename_i prime
    simp only [opened, beq_iff_eq.mp prime] at here
    exact .pure (.on rfl rfl (.beside here))
  · rw [beq_iff_eq] at left opens
    simp only [opened, begins, left, opens, if_false] at here
    exact both.command symbols stack sound ends here

end Surroundings

end FormulaMarkup

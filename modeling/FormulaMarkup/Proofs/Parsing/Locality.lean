import FormulaMarkup.Proofs.Parsing.Protocol
import FormulaMarkup.Proofs.Parsing.Success
import FormulaMarkup.Proofs.Parsing.Termination
import Mathlib.Data.List.TakeWhile

/-!
Locality. What is read up to the token that closes a group does not depend on what follows. A trail is
closed where its tokens leave nothing to be waited for; along such a trail no reader looks behind the last
token, so a run that succeeds goes the same way when there are further tokens. Main statement: a sequence
that is read along a closed trail is read to the same nodes in front of anything.
-/
namespace FormulaMarkup

open Wait

/-! ## Closed trails -/

namespace Trail

/-- Behind the tokens of a trail nothing is waited for. -/
def Closed (trail : Trail) : Prop := scan trail.waits (trail.tokens.map (·.text)) = some []

variable {trail : Trail} {waits : List Wait} {wait : Wait} {c : Cursor}

theorem scan_brackets {idle : List Wait} (brackets : ∀ wait ∈ idle, wait = bracket) {token : String}
    {rest : List String} (other : (token == "[") = false) :
    scan (idle ++ waits) (token :: rest) = scan waits (token :: rest) := by
  rw [scan, scan, advance_brackets brackets other]

/-- What is waited for on a closed trail is answered by the tokens that are left. -/
theorem On.scan_left (closed : trail.Closed) (here : trail.On waits c) :
    scan waits (c.tokens.map (·.text)) = some [] := by
  obtain ⟨-, idle, ⟨-, taken, split, scanned⟩, idleness⟩ := here
  have left : scan (idle ++ waits) (c.tokens.map (·.text)) = some [] := by
    rw [Closed, split, List.map_append, scan_append, scanned] at closed
    exact closed
  cases tokens : c.tokens with
  | nil =>
    rw [tokens] at left
    obtain ⟨-, rfl⟩ := List.append_eq_nil_iff.mp (Option.some.inj left)
    rfl
  | cons token rest =>
    rw [tokens] at left idleness
    rcases idleness with rfl | ⟨brackets, other⟩ | done
    · exact left
    · rwa [List.map_cons, scan_brackets brackets (by simpa using other)] at left
    · cases done

/-- Where something is waited for on a closed trail, there is a token left. -/
theorem On.some_left (closed : trail.Closed) (here : trail.On (wait :: waits) c) :
    ∃ token rest, c.tokens = token :: rest := by
  have left := here.scan_left closed
  cases tokens : c.tokens with
  | nil =>
    rw [tokens] at left
    cases left
  | cons token rest => exact ⟨token, rest, rfl⟩

/-- Where a sequence stands on a closed trail, there is something left for it. -/
theorem Stands.some_to_read {terminator : Option String} {below : List Wait} (closed : trail.Closed)
    (stands : trail.Stands terminator below c) : (c.pending.isNone && c.tokens.isEmpty) = false := by
  rcases stands with here | ⟨marker, owed, -⟩
  · obtain ⟨token, tail, left⟩ := here.some_left closed
    simp [left]
  · simp [owed]

/-- A sequence that has been read along a closed trail has taken all of its tokens. -/
theorem Complete.done {terminator : Option String} {nodes : List Node} (closed : trail.Closed)
    (complete : trail.Complete terminator [] nodes c) : c.tokens = [] := by
  obtain ⟨free, front, marker, -, -, ended⟩ := complete
  cases marker with
  | none => exact ended.1
  | some marker =>
    have scanned := (ended.2.on free).scan_left closed
    exact List.map_eq_nil_iff.mp (scan_nil scanned).1

theorem brace_of_scan {tokens : List String} (closed : scan (text :: waits) tokens = some []) :
    Word.closeBrace ∈ tokens := by
  induction tokens with
  | nil => cases closed
  | cons token rest ih =>
    by_cases closing : token = Word.closeBrace
    · exact closing ▸ List.mem_cons_self
    · rw [scan, advance, if_neg closing] at closed
      exact List.mem_cons_of_mem _ (ih closed)

end Trail

/-! ## Runs that go on -/

/-- A cursor with the same tokens as another one, and these behind them. -/
structure Cursor.Beyond (rest : List Token) (c d : Cursor) : Prop where
  tokens : d.tokens = c.tokens ++ rest
  pending : d.pending = c.pending

namespace Reader

/-- What the first reader gives meets a condition, and the second one gives the same in front of further
tokens. -/
def Extends {α : Type} (rest : List Token) (r s : Reader α) (c : Cursor) (post : α → Cursor → Prop) :
    Prop :=
  ∀ a after, r c = .ok (a, after) →
    post a after ∧ ∀ d, c.Beyond rest d → ∃ last, s d = .ok (a, last) ∧ after.Beyond rest last

variable {α β : Type} {rest : List Token} {c d after : Cursor}

theorem skip_beyond {token : Token} {tail : List Token} (beyond : c.Beyond rest d) :
    (skip c token tail).Beyond rest (skip d token (tail ++ rest)) :=
  ⟨rfl, beyond.pending⟩

theorem extends_rawArgument {terminator : Option String} {trail : Trail} {waits : List Wait}
    (here : trail.On waits c) :
    Extends rest (rawArgument terminator) (rawArgument terminator) c fun text after =>
      some text ≠ terminator ∧ ∀ next, advance waits text = some next → trail.On next after := by
  intro text after given
  obtain ⟨-, ends⟩ : Same (rawArgument terminator) _ c _ := rawArgument_same here
  rw [Ends, given] at ends
  obtain ⟨free, token, tail, left, rfl, rfl, other⟩ := rawArgument_ok given
  refine ⟨ends, fun d beyond => ⟨skip d token (tail ++ rest), ?_, skip_beyond beyond⟩⟩
  refine rawArgument_cons (beyond.pending.trans free) ?_ other
  rw [beyond.tokens, left, List.cons_append]

/-- A text in braces ends at its closing brace, whatever follows. -/
theorem takeWhile_brace (rest : List Token) {tokens : List Token} (brace : Word.closeBrace ∈ tokens.map (·.text)) :
    (tokens ++ rest).takeWhile (·.text != Word.closeBrace) =
        tokens.takeWhile (·.text != Word.closeBrace) ∧
      (tokens.takeWhile (·.text != Word.closeBrace)).length < tokens.length := by
  have front := List.takeWhile_prefix (l := tokens) (·.text != Word.closeBrace)
  have shorter : (tokens.takeWhile (·.text != Word.closeBrace)).length ≠ tokens.length := by
    intro same
    have all := List.takeWhile_eq_self_iff.mp (front.eq_of_length same)
    obtain ⟨token, mem, closes⟩ := List.mem_map.mp brace
    have other := all token mem
    rw [closes] at other
    simp at other
  refine ⟨?_, Nat.lt_of_le_of_ne front.length_le shorter⟩
  rw [List.takeWhile_append, if_neg shorter]

theorem extends_bracedText {trail : Trail} {waits : List Wait} (closed : trail.Closed)
    (here : trail.On (text :: waits) c) :
    Extends rest bracedText bracedText c fun _ after => trail.On waits after := by
  rintro _ _ ⟨⟩
  refine ⟨here.behindText.congr rfl rfl, fun d beyond => ?_⟩
  obtain ⟨same, shorter⟩ := takeWhile_brace rest (Trail.brace_of_scan (here.scan_left closed))
  have read : ∃ span, bracedText d = .ok (_, { d with tokens := d.tokens.drop _, last := span }) :=
    ⟨_, rfl⟩
  rw [beyond.tokens, same, List.drop_append_of_le_length shorter] at read
  obtain ⟨span, read⟩ := read
  exact ⟨_, read, rfl, beyond.pending⟩

theorem optional_eq {nested : Nested} {terminator : Option String}
    (more : (c.pending.isNone && c.tokens.isEmpty) = false) :
    optional nested terminator c = nested.sequence terminator .unbounded c := by
  unfold optional
  rw [bind_ok (get_ok c), if_neg (by simp [more])]

theorem some_to_read_beyond (more : (c.pending.isNone && c.tokens.isEmpty) = false)
    (beyond : c.Beyond rest d) : (d.pending.isNone && d.tokens.isEmpty) = false := by
  rw [beyond.pending, beyond.tokens]
  cases owed : c.pending with
  | some marker => rfl
  | none =>
    cases left : c.tokens with
    | nil => simp [owed, left] at more
    | cons token tail => rfl

theorem followed_extends {trail : Trail} (closed : trail.Closed) (rest : List Token) :
    Followed trail (Extends rest) where
  pure holds := by
    rintro _ _ ⟨⟩
    exact ⟨holds, fun d beyond => ⟨d, rfl, beyond⟩⟩
  bind first andThen := by
    intro b last given
    obtain ⟨a, mid, read, given⟩ := bind_ok_iff.mp given
    obtain ⟨holds, reads⟩ := first a mid read
    obtain ⟨holds', reads'⟩ := andThen a mid holds b last given
    refine ⟨holds', fun d beyond => ?_⟩
    obtain ⟨e, read', beyond'⟩ := reads d beyond
    obtain ⟨f, read'', beyond''⟩ := reads' e beyond'
    exact ⟨f, by rw [bind_ok read', read''], beyond''⟩
  mono same weaker := by
    intro a after given
    obtain ⟨holds, reads⟩ := same a after given
    exact ⟨weaker a after holds, reads⟩
  refuse := fun _ _ given => absurd given refuse_ne_ok
  refuseLast := fun _ _ given => absurd given refuseLast_ne_ok
  refuseNext := fun _ _ given => absurd given refuseNext_ne_ok
  takePending same := by
    intro a after given
    obtain ⟨holds, reads⟩ := same a after given
    refine ⟨holds, fun d beyond => ?_⟩
    obtain ⟨last, read, beyond'⟩ := reads { d with pending := none } ⟨beyond.tokens, rfl⟩
    rw [← beyond.pending] at read
    exact ⟨last, read, beyond'⟩
  owe holds := by
    rintro _ _ ⟨⟩
    exact ⟨holds, fun d beyond => ⟨_, rfl, beyond.tokens, rfl⟩⟩
  nextIs {_ _ _ _ _ _ c _} here same := by
    obtain ⟨token, tail, left⟩ := here.some_left closed
    intro a after given
    obtain ⟨holds, reads⟩ := same a after given
    refine ⟨holds, fun d beyond => ?_⟩
    obtain ⟨last, read, beyond'⟩ := reads d beyond
    refine ⟨last, ?_, beyond'⟩
    rw [bind_ok (nextIs_ok _ d), beyond.tokens, left, List.cons_append, List.head?_cons]
    rwa [left, List.head?_cons] at read
  next {_ _ _ _ _ c _} here _ andThen := by
    obtain ⟨token, tail, left⟩ := here.some_left closed
    intro a after given
    rw [bind_ok (next?_cons left)] at given
    obtain ⟨holds, reads⟩ := andThen token tail left a after given
    refine ⟨holds, fun d beyond => ?_⟩
    have left' : d.tokens = token :: (tail ++ rest) := by rw [beyond.tokens, left, List.cons_append]
    rw [bind_ok (next?_cons left')]
    exact reads _ (skip_beyond beyond)
  rawArgument := extends_rawArgument
  bracedText := extends_bracedText closed
  optional {nested nested' terminator _ c} here same := by
    intro nodes after given
    have more := here.some_to_read closed
    rw [optional_eq more] at given
    obtain ⟨holds, reads⟩ := same nodes after given
    refine ⟨holds, fun d beyond => ?_⟩
    obtain ⟨last, read, beyond'⟩ := reads d beyond
    exact ⟨last, by rw [optional_eq (some_to_read_beyond more beyond), read], beyond'⟩

/-! ## Runs that fail -/

/-- Where the first reader fails, the second one fails in front of further tokens. -/
def FailsAlike {α : Type} (rest : List Token) (r s : Reader α) (c : Cursor) : Prop :=
  ∀ failure, r c = .error failure → ∀ d, c.Beyond rest d → ∃ failure', s d = .error failure'

/-- The first reader settles what the second one does in front of further tokens: it gives the same, or fails
as well. -/
def Settles {α : Type} (rest : List Token) (r s : Reader α) (c : Cursor) (post : α → Cursor → Prop) : Prop :=
  Extends rest r s c post ∧ FailsAlike rest r s c

theorem failsAlike_of_error {r s : Reader α} (fails : ∀ d, ∃ failure, s d = .error failure) :
    FailsAlike rest r s c :=
  fun _ _ d _ => fails d

theorem refuseNext_error (cause : Cause) (d : Cursor) :
    ∃ failure, (nextSpan >>= fun span => (refuse span cause : Reader α)) d = .error failure := by
  obtain ⟨span, given⟩ := nextSpan_ok d
  exact ⟨_, bind_ok given⟩

theorem failsAlike_rawArgument {terminator : Option String} {token : Token} {tail : List Token}
    (left : c.tokens = token :: tail) :
    FailsAlike rest (rawArgument terminator) (rawArgument terminator) c := by
  intro failure refused d beyond
  unfold rawArgument at refused ⊢
  rw [bind_ok (get_ok c), left, List.head?_cons] at refused
  rw [bind_ok (get_ok d), beyond.pending, beyond.tokens, left, List.cons_append, List.head?_cons]
  split at refused
  · rename_i closed
    rw [if_pos closed]
    exact refuseNext_error _ d
  · rw [bind_ok (next?_cons left)] at refused
    cases refused

theorem followed_settles {trail : Trail} (closed : trail.Closed) (rest : List Token) :
    Followed trail (Settles rest) where
  pure holds := ⟨(followed_extends closed rest).pure holds, nofun⟩
  bind {_ _ r _ _ _ c _ _} first andThen := by
    refine ⟨(followed_extends closed rest).bind first.1 fun a after mid => (andThen a after mid).1, ?_⟩
    intro failure refused d beyond
    cases given : r c with
    | error failure' =>
      obtain ⟨failure'', refused'⟩ := first.2 failure' given d beyond
      exact ⟨failure'', bind_error refused'⟩
    | ok result =>
      obtain ⟨a, mid⟩ := result
      obtain ⟨holds, reads⟩ := first.1 a mid given
      obtain ⟨last, read, beyond'⟩ := reads d beyond
      rw [bind_ok given] at refused
      rw [bind_ok read]
      exact (andThen a mid holds).2 failure refused last beyond'
  mono same weaker := ⟨(followed_extends closed rest).mono same.1 weaker, same.2⟩
  refuse := ⟨(followed_extends closed rest).refuse, failsAlike_of_error fun _ => ⟨_, rfl⟩⟩
  refuseLast := ⟨(followed_extends closed rest).refuseLast, failsAlike_of_error fun _ => ⟨_, rfl⟩⟩
  refuseNext := ⟨(followed_extends closed rest).refuseNext, failsAlike_of_error (refuseNext_error _)⟩
  takePending same := by
    refine ⟨(followed_extends closed rest).takePending same.1, fun failure refused d beyond => ?_⟩
    obtain ⟨failure', refused'⟩ := same.2 failure refused { d with pending := none } ⟨beyond.tokens, rfl⟩
    rw [← beyond.pending] at refused'
    exact ⟨failure', refused'⟩
  owe holds := ⟨(followed_extends closed rest).owe holds, nofun⟩
  nextIs here same := by
    refine ⟨(followed_extends closed rest).nextIs here same.1, fun failure refused d beyond => ?_⟩
    obtain ⟨token, tail, left⟩ := here.some_left closed
    obtain ⟨failure', refused'⟩ := same.2 failure refused d beyond
    refine ⟨failure', ?_⟩
    rw [bind_ok (nextIs_ok _ d), beyond.tokens, left, List.cons_append, List.head?_cons]
    rwa [left, List.head?_cons] at refused'
  next here nothing andThen := by
    refine ⟨(followed_extends closed rest).next here (fun done => (nothing done).1)
      fun token tail left => (andThen token tail left).1, fun failure refused d beyond => ?_⟩
    obtain ⟨token, tail, left⟩ := here.some_left closed
    rw [bind_ok (next?_cons left)] at refused
    have left' : d.tokens = token :: (tail ++ rest) := by rw [beyond.tokens, left, List.cons_append]
    rw [bind_ok (next?_cons left')]
    exact (andThen token tail left).2 failure refused _ (skip_beyond beyond)
  rawArgument here := by
    obtain ⟨token, tail, left⟩ := here.some_left closed
    exact ⟨extends_rawArgument here, failsAlike_rawArgument left⟩
  bracedText here := ⟨extends_bracedText closed here, nofun⟩
  optional here same := by
    refine ⟨(followed_extends closed rest).optional here same.1, fun failure refused d beyond => ?_⟩
    have more := here.some_to_read closed
    rw [optional_eq more] at refused
    rw [optional_eq (some_to_read_beyond more beyond)]
    exact same.2 failure refused d beyond

/-! ## Sequences -/

/-- A sequence is read along a closed trail as it is read in front of further tokens, where no budget is
kept. -/
theorem sequence_settles (symbols : SymbolTable) (rest : List Token) (budget : Nat) (trail : Trail)
    (closed : trail.Closed) (terminator : Option String) (limit : Limit) (below : List Wait)
    (consumed : Bool) (stack : List Node) (c : Cursor) (fits : trail.room = budget)
    (known : Closing terminator) (unmarked : Unmarked terminator stack)
    (stands : trail.Stands terminator below c) :
    Settles rest (sequence symbols terminator limit budget consumed stack)
      (unbudgeted symbols terminator limit consumed stack) c (trail.Left terminator below limit) := by
  induction budget generalizing trail terminator limit below consumed stack c with
  | zero =>
    have positive := stands.fits
    omega
  | succ budget ih =>
    have plain : unbudgeted symbols terminator limit consumed stack =
        Reader.turn terminator limit (token symbols (unbudgetedNested symbols) terminator)
          (unbudgeted symbols terminator limit true) consumed stack :=
      funext (unbudgeted_eq symbols terminator limit consumed stack)
    rw [plain, sequence]
    have closed' : (trail.within budget).Closed := closed
    have followed := followed_settles closed' rest
    refine (followed_settles closed rest).turn fits ?_ ?_ unmarked stands
    · intro token stack c other unmarked here
      refine followed.token ⟨followed.rawArgument, ?_⟩ known other unmarked here
      intro terminator limit below c known stands
      exact ih (trail.within budget) closed terminator limit below false [] c rfl known unmarked_nil stands
    · intro stack c unmarked stands
      exact ih (trail.within budget) closed terminator limit below true stack c rfl known unmarked stands

/-- A sequence that is read along a closed trail is read to the same nodes in front of further tokens, where
no budget is kept. -/
theorem sequence_extends (symbols : SymbolTable) (rest : List Token) (budget : Nat) (trail : Trail)
    (closed : trail.Closed) (terminator : Option String) (limit : Limit) (below : List Wait)
    (consumed : Bool) (stack : List Node) (c : Cursor) (fits : trail.room = budget)
    (known : Closing terminator) (unmarked : Unmarked terminator stack)
    (stands : trail.Stands terminator below c) :
    Extends rest (sequence symbols terminator limit budget consumed stack)
      (unbudgeted symbols terminator limit consumed stack) c (trail.Left terminator below limit) :=
  (sequence_settles symbols rest budget trail closed terminator limit below consumed stack c fits known unmarked
    stands).1

end Reader

end FormulaMarkup

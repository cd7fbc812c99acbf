import FormulaMarkup.Formula.Parse
import FormulaMarkup.Proofs.Parsing.Commands
import FormulaMarkup.Symbol.Known

/-!
The terminator protocol for whole parses. A watched parse runs the same readers as a plain one and
checks the protocol at every call, before and behind it; where a check fails, its budget counts as
used up. Main statement: the watched parse does as the plain one on all tokens, so no call of any
parse breaks the protocol.
-/
namespace FormulaMarkup

/-! ## The protocol at one call -/

/-- The texts of the tokens that have been taken between two cursors. -/
def Cursor.taken (before after : Cursor) : List String :=
  (before.tokens.take (before.tokens.length - after.tokens.length)).map (·.text)

/-- How many terminators have been consumed for a sequence without a limit: one that was owed to it,
and one that the tokens it has taken end with. -/
def terminatorsConsumed (terminator : Option String) (before after : Cursor) : Nat :=
  (if before.pending.isSome then 1 else 0) +
    if Wait.closes terminator (before.taken after) then 1 else 0

/-- What holds behind a call that reads a sequence. The tokens that are left are the last ones of
those that were there. Without a limit, nothing is owed, a leaf for the terminator stands at the end
only, and there are as many such leaves as terminators have been consumed; with one, no such leaf is
returned, and nothing else is owed. -/
def KeepsProtocol (terminator : Option String) (before : Cursor) (nodes : List Node)
    (after : Cursor) : Limit → Prop
  | .unbounded => after.tokens <:+ before.tokens ∧ after.pending = none ∧
      (∀ node ∈ nodes.dropLast, node.marks terminator = false) ∧
      nodes.countP (·.marks terminator) = terminatorsConsumed terminator before after
  | .nodes _ => after.tokens <:+ before.tokens ∧ (∀ node ∈ nodes, node.marks terminator = false) ∧
      after.pending.all (·.marks terminator) = true

instance (terminator : Option String) (before : Cursor) (nodes : List Node) (after : Cursor)
    (limit : Limit) : Decidable (KeepsProtocol terminator before nodes after limit) := by
  cases limit <;> unfold KeepsProtocol <;> infer_instance

namespace Reader

/-! ## The watched parse -/

def checked {α : Type} (before : Cursor → Bool) (behind : Cursor → α → Cursor → Bool)
    (r : Reader α) : Reader α := fun c =>
  if before c then
    match r c with
    | .ok (a, after) => if behind c a after then .ok (a, after) else .error .exhausted
    | .error failure => .error failure
  else .error .exhausted

/-- A reader that is only run when nothing is owed. -/
def unowed {α : Type} (r : Reader α) : Reader α :=
  checked (·.pending.isNone) (fun _ _ _ => true) r

/-- A call that reads a sequence, with the protocol checked. -/
def watchedCall (terminator : Option String) (limit : Limit) (r : Reader (List Node)) :
    Reader (List Node) :=
  checked (·.pending.all (·.marks terminator))
    (fun before nodes after => decide (KeepsProtocol terminator before nodes after limit)) r

/-- Reads a sequence as `sequence` does, and checks every call. -/
def watchedSequence (symbols : SymbolTable) (terminator : Option String) (limit : Limit) :
    Nat → Bool → List Node → Reader (List Node)
  | 0, _, _ => throw .exhausted
  | budget + 1, consumed, stack =>
    let nested : Nested :=
      { raw := fun terminator => unowed (rawArgument terminator)
        sequence := fun terminator limit =>
          watchedCall terminator limit (watchedSequence symbols terminator limit budget false []) }
    turn terminator limit (fun next stack => unowed (token symbols nested terminator next stack))
      (watchedSequence symbols terminator limit budget true) consumed stack

/-! ## Checks that are passed -/

theorem Same.checked {α : Type} {before : Cursor → Bool} {behind : Cursor → α → Cursor → Bool}
    {r s : Reader α} {c : Cursor} {post : α → Cursor → Prop} (met : before c = true)
    (same : Same r s c post) (kept : ∀ a after, post a after → behind c a after = true) :
    Same (Reader.checked before behind r) s c post := by
  obtain ⟨same, ends⟩ := same
  refine ⟨?_, ends⟩
  simp only [Reader.checked, met, if_true, same]
  unfold Ends at ends
  split
  · rename_i a after given
    rw [given] at ends ⊢
    rw [if_pos (kept a after ends)]
  · rename_i failure given
    exact given.symm

theorem unowed_eq {α : Type} {r : Reader α} {c : Cursor} (free : c.pending = none) :
    Reader.unowed r c = r c := by
  simp only [Reader.unowed, Reader.checked, free, Option.isNone_none, if_true]
  split
  · rename_i given
    exact given.symm
  · rename_i given
    exact given.symm

theorem Same.unowed {α : Type} {r s : Reader α} {c : Cursor} {post : α → Cursor → Prop}
    (free : c.pending = none) (same : Same r s c post) : Same (Reader.unowed r) s c post :=
  ⟨(unowed_eq free).trans same.1, same.2⟩

end Reader

/-! ## A call that keeps the protocol -/

/-- The trail that starts at a call: its sequence is open, or its terminator is owed to it. -/
def Cursor.trail (c : Cursor) (terminator : Option String) (room : Nat) : Trail :=
  ⟨c.tokens, if c.pending.isSome then [] else [.upTo terminator], room⟩

namespace Trail

open Wait

variable {terminator : Option String} {waits : List Wait} {c after : Cursor} {room : Nat}

theorem stands_start (fits : c.tokens.length < room)
    (entered : c.pending.all (·.marks terminator) = true) :
    (c.trail terminator room).Stands terminator [] c := by
  cases owed : c.pending with
  | none =>
    refine .inl (on_of_at owed ⟨fits, [], rfl, ?_⟩)
    simp [Cursor.trail, owed, scan]
  | some marker =>
    rw [owed] at entered
    refine .inr ⟨marker, owed, entered, .inl ⟨fits, [], rfl, ?_⟩⟩
    simp [Cursor.trail, owed, scan]

theorem taken_of_split {taken : List Token} (split : c.tokens = taken ++ after.tokens) :
    c.taken after = taken.map (·.text) := by
  simp [Cursor.taken, split]

/-- What the waits of a trail that starts at a call say about the tokens that the call has taken. -/
theorem At.taken (here : (c.trail terminator room).At waits after.tokens) :
    after.tokens <:+ c.tokens ∧
      scan (if c.pending.isSome then [] else [upTo terminator]) (c.taken after) = some waits := by
  obtain ⟨-, taken, split, scanned⟩ := here
  refine ⟨⟨taken, split.symm⟩, ?_⟩
  rw [taken_of_split split]
  exact scanned

theorem scan_nil {tokens : List String} (scanned : scan [] tokens = some waits) :
    tokens = [] ∧ waits = [] := by
  cases tokens with
  | nil => exact ⟨rfl, (Option.some.inj scanned).symm⟩
  | cons token rest => cases scanned

/-- A sequence that is shut has consumed one terminator. -/
theorem Shut.terminatorsConsumed (shut : (c.trail terminator room).Shut [] after) :
    after.tokens <:+ c.tokens ∧ terminatorsConsumed terminator c after = 1 := by
  have waits : ∃ waits, (waits = [] ∨ waits = [raw]) ∧
      (c.trail terminator room).At waits after.tokens := by
    rcases shut with here | ⟨here, -⟩
    · exact ⟨[], .inl rfl, here⟩
    · exact ⟨[raw], .inr rfl, here⟩
  obtain ⟨waits, shape, here⟩ := waits
  obtain ⟨suffix, scanned⟩ := here.taken
  refine ⟨suffix, ?_⟩
  unfold FormulaMarkup.terminatorsConsumed
  split at scanned
  · rename_i owed
    rw [(scan_nil scanned).1, if_pos owed]
    simp [closes, scan]
  · rename_i free
    rw [if_neg free, closes, scanned]
    rcases shape with rfl | rfl
    · simp
    · simp

/-- A sequence that is open has consumed none. -/
theorem On.terminatorsConsumed (here : (c.trail terminator room).On [upTo terminator] after) :
    after.tokens <:+ c.tokens ∧ terminatorsConsumed terminator c after = 0 := by
  obtain ⟨-, idle, here, -⟩ := here
  obtain ⟨suffix, scanned⟩ := here.taken
  refine ⟨suffix, ?_⟩
  unfold FormulaMarkup.terminatorsConsumed
  split at scanned
  · have empty := (scan_nil scanned).2
    simp at empty
  · rename_i free
    rw [if_neg free, closes, scanned]
    cases idle with
    | nil => simp
    | cons wait rest => simp

theorem unmarked_countP {nodes : List Node} (unmarked : Unmarked terminator nodes) :
    nodes.countP (·.marks terminator) = 0 := by
  rw [List.countP_eq_zero]
  intro node mem
  simp [unmarked node mem]

/-- A call that is followed on its own trail keeps the protocol. -/
theorem Left.keepsProtocol {limit : Limit} {nodes : List Node}
    (left : (c.trail terminator room).Left terminator [] limit nodes after) :
    KeepsProtocol terminator c nodes after limit := by
  cases limit with
  | nodes count =>
    obtain ⟨unmarked, here | ⟨marker, owed, marks, shut⟩⟩ := left
    · exact ⟨here.terminatorsConsumed.1, unmarked, by simp [here.1]⟩
    · exact ⟨shut.terminatorsConsumed.1, unmarked, by simp [owed, marks]⟩
  | unbounded =>
    obtain ⟨free, front, marker, rfl, unmarked, ended⟩ := left
    cases marker with
    | none =>
      obtain ⟨suffix, none⟩ := ended.2.terminatorsConsumed
      rw [Option.toList_none, List.append_nil]
      refine ⟨suffix, free, fun node mem => unmarked node (List.dropLast_subset _ mem), ?_⟩
      rw [none, unmarked_countP unmarked]
    | some marker =>
      obtain ⟨marks, shut⟩ := ended
      obtain ⟨suffix, one⟩ := shut.terminatorsConsumed
      rw [Option.toList_some]
      refine ⟨suffix, free, by rwa [List.dropLast_concat], ?_⟩
      rw [one, List.countP_append, unmarked_countP unmarked]
      simp [marks]

end Trail

/-! ## Sequences along a trail -/

namespace Followed

open Wait

variable {terminator : Option String} {trail : Trail}
  {rel : {α : Type} → Reader α → Reader α → Cursor → (α → Cursor → Prop) → Prop}
  (followed : Followed trail rel) {below : List Wait} {limit : Limit} {stack : List Node} {c : Cursor}

include followed

/-- A sequence ends that has no leaf for its terminator. -/
theorem close_open {count : Nat} (consumed : Bool) (unmarked : Unmarked terminator stack)
    (stands : trail.Stands terminator below c) :
    rel (Reader.close terminator (.nodes count) consumed stack)
      (Reader.close terminator (.nodes count) consumed stack) c
      (trail.Left terminator below (.nodes count)) := by
  have none : stack.head?.filter (fun node => node.isLeaf && some node.token == terminator) = none := by
    rw [Option.filter_eq_none_iff]
    intro node first
    have other := unmarked node (List.mem_of_mem_head? first)
    simpa [Node.marks] using other
  unfold Reader.close
  split
  · exact followed.refuseNext
  · dsimp only
    rw [none]
    dsimp only
    split
    · exact followed.refuseLast
    · exact followed.pure ⟨fun node mem => unmarked node (List.mem_reverse.mp mem), stands⟩

/-- A sequence ends that is complete. With a limit, the leaf for the terminator is owed. -/
theorem close_complete (consumed : Bool)
    (complete : trail.Complete terminator below stack.reverse c) :
    rel (Reader.close terminator limit consumed stack) (Reader.close terminator limit consumed stack)
      c (trail.Left terminator below limit) := by
  cases limit with
  | unbounded =>
    unfold Reader.close
    split
    · exact followed.refuseNext
    · exact followed.pure complete
  | nodes count =>
    obtain ⟨free, front, marker, split', unmarked, ended⟩ := complete
    have stack_eq : stack = marker.toList ++ front.reverse := by
      rw [← List.reverse_reverse stack, split', List.reverse_append]
      cases marker <;> rfl
    have unmarked' : Unmarked terminator front.reverse :=
      fun node mem => unmarked node (List.mem_reverse.mp mem)
    cases marker with
    | none =>
      obtain rfl : stack = front.reverse := stack_eq
      exact followed.close_open consumed unmarked' (.inl ended.2)
    | some marker =>
      obtain rfl : stack = marker :: front.reverse := stack_eq
      obtain ⟨marks, shut⟩ := ended
      have found : (marker :: front.reverse).head?.filter
          (fun node => node.isLeaf && some node.token == terminator) = some marker := by
        rw [List.head?_cons, Option.filter_some]
        exact if_pos marks
      unfold Reader.close
      split
      · exact followed.refuseNext
      · dsimp only
        rw [found]
        dsimp only
        split
        · have owed : rel (Reader.owe marker) (Reader.owe marker) c fun _ after =>
              after.pending = some marker ∧ after.tokens = c.tokens := followed.owe ⟨rfl, rfl⟩
          refine followed.bind owed ?_
          rintro - after ⟨pending, left⟩
          refine followed.pure ⟨?_, .inr ⟨marker, pending, marks, ?_⟩⟩
          · rwa [List.tail_cons, List.reverse_reverse]
          · rwa [Trail.Shut, left]
        · exact followed.refuseLast

/-- The leaf for a terminator is read behind its token. A `\right` takes the next token along. -/
theorem marker {text : String} (free : c.pending = none)
    (here : trail.At (if text = "\\right" then raw :: below else below) c.tokens) :
    rel (Reader.marker text) (Reader.marker text) c fun node after =>
      node.marks (some text) = true ∧ after.pending = none ∧ trail.Shut below after := by
  have marks : (Node.leaf text).marks (some text) = true := by
    simp [Node.marks, Node.leaf, Node.isLeaf]
  unfold Reader.marker
  split
  · rename_i right
    rw [if_pos (beq_iff_eq.mp right)] at here
    refine followed.next (Trail.on_of_at free here) (fun done => ?_) fun delimiter rest left => ?_
    · exact followed.pure ⟨marks, free, .inr ⟨here, done⟩⟩
    · rw [left] at here
      have behind : trail.At below rest := Trail.at_next (Nat.le_succ _) here rfl
      exact followed.pure ⟨marks, free, .inl behind⟩
  · rename_i other
    rw [if_neg (by simpa using other)] at here
    exact followed.pure ⟨marks, free, .inl here⟩

/-- One turn keeps the protocol if the step and the turns behind it do, with less room. -/
theorem turn {room : Nat} {step step' : Token → List Node → Reader Progress}
    {again again' : List Node → Reader (List Node)} {consumed : Bool}
    (enough : trail.room = room + 1)
    (steps : ∀ token stack c, some token.text ≠ terminator → Unmarked terminator stack →
      (trail.within room).On (opened token.text ++ Wait.upTo terminator :: below) c →
      rel (step token stack) (step' token stack) c ((trail.within room).Goes terminator below))
    (goesOn : ∀ stack c, Unmarked terminator stack → (trail.within room).Stands terminator below c →
      rel (again stack) (again' stack) c ((trail.within room).Left terminator below limit))
    (unmarked : Unmarked terminator stack) (stands : trail.Stands terminator below c) :
    rel (Reader.turn terminator limit step again consumed stack)
      (Reader.turn terminator limit step' again' consumed stack) c
      (trail.Left terminator below limit) := by
  have less : room ≤ trail.room := by omega
  have front : Unmarked terminator stack.reverse :=
    fun node mem => unmarked node (List.mem_reverse.mp mem)
  unfold Reader.turn
  refine followed.takePending ?_
  rcases stands with here | ⟨owed, pending, marks, shut⟩
  · rw [here.1]
    dsimp only
    have free : ({ c with pending := none } : Cursor) = c := by rw [← here.1]
    rw [free]
    refine followed.next here (fun left => ?_) fun token rest left => ?_
    · refine followed.close_complete consumed ?_
      exact ⟨here.1, stack.reverse, none, by simp, front, left, here⟩
    · dsimp only
      split
      · rename_i closes
        split
        · rename_i unbounded
          have moved : advance (Wait.upTo terminator :: below) token.text =
              some (if token.text = "\\right" then raw :: below else below) := by
            rw [advance, if_pos closes]
          have behind := here.at_next left moved (Nat.le_succ _)
          refine followed.bind (followed.marker here.1 behind) ?_
          rintro node after ⟨marks, free', shut⟩
          rw [closes] at marks
          refine followed.close_complete true ⟨free', stack.reverse, some node, ?_, front, marks, shut⟩
          simp
        · exact followed.refuse
      · rename_i other
        have moved : advance (Wait.upTo terminator :: below) token.text =
            some (opened token.text ++ Wait.upTo terminator :: below) := by
          rw [advance, if_neg other]
        have inside := here.at_next left moved (Nat.le_of_eq enough)
        refine followed.bind (steps token stack _ other unmarked (Trail.on_of_at here.1 inside)) ?_
        rintro ⟨stack', finished⟩ after goes
        cases finished with
        | true => exact followed.close_complete true (Trail.Complete.widen less goes)
        | false =>
          obtain ⟨unmarked', stands'⟩ := goes
          dsimp only
          split
          · rename_i full
            cases limit with
            | unbounded => cases full
            | nodes count => exact followed.close_open true unmarked' (stands'.widen less)
          · refine followed.mono (goesOn stack' after unmarked' stands') ?_
            exact fun nodes last left => Trail.Left.widen less left
  · rw [pending]
    dsimp only
    split
    · rename_i unbounded
      refine followed.close_complete true ⟨rfl, stack.reverse, some owed, by simp, front, marks, ?_⟩
      exact shut
    · exact followed.refuseLast

end Followed

/-! ## Every call keeps the protocol -/

namespace Reader

open Wait

variable {terminator : Option String} {trail : Trail} {below : List Wait} {limit : Limit}
  {stack : List Node} {c : Cursor}

/-- The watched reader and the plain one do the same on a sequence, and read it as its trail says. -/
theorem watchedSequence_same (symbols : SymbolTable) (budget : Nat) (trail : Trail)
    (terminator : Option String) (limit : Limit) (below : List Wait) (consumed : Bool)
    (stack : List Node) (c : Cursor) (fits : trail.room = budget) (known : Closing terminator)
    (unmarked : Unmarked terminator stack) (stands : trail.Stands terminator below c) :
    Same (watchedSequence symbols terminator limit budget consumed stack)
      (sequence symbols terminator limit budget consumed stack) c
      (trail.Left terminator below limit) := by
  induction budget generalizing trail terminator limit below consumed stack c with
  | zero =>
    have positive := stands.fits
    omega
  | succ budget ih =>
    unfold watchedSequence sequence
    refine (followed_same trail).turn fits ?_ ?_ unmarked stands
    · intro token stack c other unmarked here
      refine .unowed here.1 (token_same ⟨fun terminator c free => unowed_eq free, rfl, ?_⟩ known
        other unmarked here)
      intro trail' terminator limit below c fits' known stands
      have fits := stands.fits
      rw [fits'] at fits
      -- The check behind the call is met on the trail that starts there.
      have own := ih (c.trail terminator budget) terminator limit [] false [] c rfl known
        unmarked_nil (Trail.stands_start fits stands.owed)
      have same := ih trail' terminator limit below false [] c fits' known unmarked_nil stands
      refine .mono (.checked stands.owed (own.and same) ?_) fun nodes after both => both.2
      rintro nodes after ⟨left, -⟩
      exact decide_eq_true left.keepsProtocol
    · intro stack c unmarked stands
      exact ih (trail.within budget) terminator limit below true stack c rfl known unmarked stands

/-- A watched call does as the plain one. -/
theorem watchedCall_same (symbols : SymbolTable) {budget : Nat} (fits : c.tokens.length < budget)
    (known : Closing terminator) (entered : c.pending.all (·.marks terminator) = true) :
    Same (watchedCall terminator limit (watchedSequence symbols terminator limit budget false []))
      (sequence symbols terminator limit budget false []) c
      ((c.trail terminator budget).Left terminator [] limit) :=
  .checked entered
    (watchedSequence_same symbols budget _ terminator limit [] false [] c rfl known unmarked_nil
      (Trail.stands_start fits entered))
    fun _ _ left => decide_eq_true left.keepsProtocol

end Reader

/-! ## Whole parses -/

namespace Trail

/-- The whole source has no terminator, so it is read to its end. -/
theorem Left.source {trail : Trail} {below : List Wait} {nodes : List Node} {c : Cursor}
    (left : trail.Left none below .unbounded nodes c) : c.pending = none ∧ c.tokens = [] := by
  obtain ⟨free, front, marker, -, -, ended⟩ := left
  cases marker with
  | none => exact ⟨free, ended.1⟩
  | some marker =>
    have named := (Node.marks_iff.mp ended.1).2
    cases named

end Trail

namespace Formula

/-- Reads all tokens as `ofTokens?` does, with every call checked, and tells where it ends. -/
def watchedTokens? (symbols : SymbolTable) (tokens : List Token) (stop : Nat) :
    Except Failure (List Node × Cursor) :=
  let start : Cursor := { tokens, last := ⟨0, 0⟩, stop }
  if tokens.isEmpty then .ok ([], start)
  else Reader.watchedCall none .unbounded
    (Reader.watchedSequence symbols none .unbounded (tokens.length + 1) false []) start

/-- Every call of every parse keeps the terminator protocol: the parse that checks it does as the
plain one. No parse uses up its budget, and one that succeeds takes all tokens. -/
theorem terminator_protocol (symbols : SymbolTable) (tokens : List Token) (stop : Nat) :
    (watchedTokens? symbols tokens stop).map (·.1) = ofTokens? symbols tokens stop ∧
      ofTokens? symbols tokens stop ≠ .error .exhausted ∧
      ∀ nodes after, watchedTokens? symbols tokens stop = .ok (nodes, after) →
        after.pending = none ∧ after.tokens = [] := by
  unfold watchedTokens? ofTokens?
  cases empty : tokens.isEmpty with
  | true =>
    dsimp only
    rw [if_pos rfl, if_pos rfl]
    refine ⟨rfl, nofun, ?_⟩
    rintro nodes after ⟨⟩
    exact ⟨rfl, List.isEmpty_iff.mp empty⟩
  | false =>
    have fits : tokens.length < tokens.length + 1 := Nat.lt_succ_self _
    obtain ⟨same, ends⟩ : Reader.Same
        (Reader.watchedCall none .unbounded
          (Reader.watchedSequence symbols none .unbounded (tokens.length + 1) false []))
        (Reader.sequence symbols none .unbounded (tokens.length + 1) false [])
        { tokens, last := ⟨0, 0⟩, stop } _ :=
      Reader.watchedCall_same symbols fits Wait.closing_none rfl
    dsimp only [StateT.run]
    rw [if_neg Bool.false_ne_true, if_neg Bool.false_ne_true, same]
    unfold Reader.Ends at ends
    refine ⟨rfl, ?_, ?_⟩
    · intro exhausted
      split at ends
      · rename_i given
        rw [given] at exhausted
        cases exhausted
      · rename_i given
        rw [given] at exhausted
        cases exhausted
        exact ends rfl
    · intro nodes after given
      rw [given] at ends
      exact ends.source

/-- The color runs to the brace from within the exponent, which owes it to the group. -/
theorem terminator_protocol_owed :
    ∃ nodes after,
      watchedTokens? .known (Source.tokens .known "\x7bx^\\color r a\x7d") 14 =
          .ok (nodes, after) ∧
        after.pending = none ∧ after.tokens = [] := by
  let color : Node := (Node.withChildren "\\color" [.leaf "a"]).setAttribute "mathcolor" "r"
  let nodes : List Node := [.braces [.withChildren "^" [.leaf "x", color]]]
  have given : watchedTokens? .known (Source.tokens .known "\x7bx^\\color r a\x7d") 14 =
      .ok (nodes, { tokens := [], last := ⟨13, 14⟩, stop := 14 }) := by
    decide +kernel
  exact ⟨_, _, given, (terminator_protocol .known _ 14).2.2 _ _ given⟩

end Formula

end FormulaMarkup

import FormulaMarkup.Proofs.Parsing.Groups
import FormulaMarkup.Proofs.Parsing.Surroundings

/-!
Sequences in other surroundings. Tokens that are accepted on their own are followed through the sequence that
they are put into, turn by turn. Main statements: up to the terminator the sequence reads the nodes that the
tokens have on their own, and in front of other tokens it goes on with these nodes on its stack.
-/
namespace FormulaMarkup

open Wait

namespace Reader

variable {terminator : Option String} {limit : Limit} {consumed : Bool} {stack nodes : List Node} {c after : Cursor}

/-! ## Turns of the source -/

/-- A turn of the outermost sequence that succeeds: the source is at its end, or a token is read. -/
theorem turn_ok {step : Token → List Node → Reader Progress} {again : List Node → Reader (List Node)}
    (free : c.pending = none) (given : turn none limit step again consumed stack c = .ok (nodes, after)) :
    c.tokens = [] ∧ Reader.close none limit consumed stack c = .ok (nodes, after) ∨
      ∃ token rest progress mid, c.tokens = token :: rest ∧
        step token stack (skip c token rest) = .ok (progress, mid) ∧
        (if progress.finished || limit.reachedBy progress.stack.length then
          Reader.close none limit true progress.stack else again progress.stack) mid = .ok (nodes, after) := by
  unfold turn at given
  obtain ⟨owed, mid, ⟨⟩, given⟩ := bind_ok_iff.mp given
  have kept : ({ c with pending := none } : Cursor) = c := by rw [← free]
  rw [free, kept] at given
  dsimp only at given
  obtain ⟨next, mid, taken, goesOn⟩ := bind_ok_iff.mp given
  rcases next?_ok taken with ⟨rfl, done, rfl⟩ | ⟨token, rest, rfl, left, rfl⟩
  · exact .inl ⟨done, goesOn⟩
  · dsimp only at goesOn
    rw [if_neg nofun] at goesOn
    obtain ⟨progress, mid, read, behind⟩ := bind_ok_iff.mp goesOn
    exact .inr ⟨token, rest, progress, mid, left, read, behind⟩

/-- The source has no terminator, so all nodes are returned. -/
theorem close_none_ok (given : Reader.close none limit consumed stack c = .ok (nodes, after)) :
    consumed = true ∧ nodes = stack.reverse ∧ after = c ∧
      ∀ count, limit = .nodes count → count ≤ stack.length := by
  have reads : consumed = true := by
    cases consumed with
    | true => rfl
    | false => exact absurd given refuseNext_ne_ok
  rcases close_ok given with ⟨rfl, rfl, rfl⟩ | ⟨_, _, _, -, -, marks, -⟩ | ⟨count, rfl, -, full, rfl, rfl⟩
  · exact ⟨reads, rfl, rfl, nofun⟩
  · exact absurd (Node.marks_iff.mp marks).2 nofun
  · refine ⟨reads, rfl, rfl, ?_⟩
    rintro _ ⟨⟩
    exact full

/-! ## Ends of a sequence -/

theorem close_unmarked {count : Nat} (unmarked : Unmarked terminator stack) (full : count ≤ stack.length) :
    Reader.close terminator (.nodes count) true stack c = .ok (stack.reverse, c) := by
  have open' : stack.head?.filter (fun node => node.isLeaf && some node.token == terminator) = none := by
    rw [Option.filter_eq_none_iff]
    intro node first
    exact Bool.not_eq_true _ ▸ unmarked node (List.mem_of_mem_head? first)
  unfold Reader.close
  simp only [Bool.not_true, Bool.false_eq_true, if_false, open']
  rw [if_neg (Nat.not_lt.mpr full)]
  rfl

/-- The token that ends the sequence around is owed to it. -/
theorem close_marked {closing : String} {count : Nat} (full : count ≤ stack.length) :
    Reader.close (some closing) (.nodes count) true (.leaf closing :: stack) c =
      .ok (stack.reverse, { c with pending := some (.leaf closing) }) := by
  unfold Reader.close
  simp only [Bool.not_true, Bool.false_eq_true, if_false, List.head?_cons, Option.filter_some, Node.leaf, Node.isLeaf,
    Option.isNone_none, beq_self_eq_true, Bool.and_self, if_true, List.length_cons, List.tail_cons]
  rw [if_pos (Nat.lt_succ_of_le full)]
  rfl

/-! ## The terminator among the nodes -/

/-- A token that does not end its sequence leaves no leaf for the terminator on the stack. -/
theorem token_unmarked {symbols : SymbolTable} {token : Token} {rest : List Token} {progress : Progress}
    (known : Closing terminator) (other : some token.text ≠ terminator) (unmarked : Unmarked terminator stack)
    (free : c.pending = none)
    (given : Reader.token symbols (unbudgetedNested symbols) terminator token stack (skip c token rest) =
      .ok (progress, after))
    (going : progress.finished = false) : Unmarked terminator progress.stack := by
  let trail : Trail := ⟨rest, opened token.text ++ [upTo terminator], rest.length + 1⟩
  have here : trail.On (opened token.text ++ [upTo terminator]) (skip c token rest) :=
    Trail.on_of_at free ⟨Nat.lt_succ_self _, [], rfl, rfl⟩
  have both : FollowedNested trail Same (unbudgetedNested symbols) (unbudgetedNested symbols) :=
    ⟨rawArgument_same, fun known stands => ⟨rfl, unbudgeted_left symbols known unmarked_nil stands⟩⟩
  have same : Same (Reader.token symbols _ terminator token stack) _ (skip c token rest)
      (trail.Goes terminator []) := (followed_same trail).token both known other unmarked here
  have ends := same.2
  rw [Ends, given] at ends
  simp only [Trail.Goes, going, Bool.false_eq_true, if_false] at ends
  exact ends.1

end Reader

namespace Surroundings

open Reader (Agrees Mirrors skip unbudgeted unbudgeted_eq unbudgetedNested guardedNested)

variable {around : Surroundings} {symbols : SymbolTable} {c d : Cursor} {consumed : Bool} {stack nodes : List Node}
  {after : Cursor}

/-! ## The end of the tokens -/

/-- Behind the last of the tokens the sequence is at its terminator. -/
theorem Beside.ends (symbols : SymbolTable) (sound : around.Sound) (runs : around.runs = true)
    (here : around.Beside [upTo none] c d) (done : c.tokens = []) (consumed : Bool) (stack : List Node) :
    ∃ all last, unbudgeted symbols around.terminator .unbounded consumed stack d = .ok (all, last) ∧
      around.Finishes stack.reverse all c last := by
  obtain ⟨mark, rest, behind, closes, other⟩ := sound.ends runs
  have left : d.tokens = mark :: rest := by rw [here.tokens, done, behind, List.nil_append]
  have leaf : Reader.marker mark.text (skip d mark rest) = .ok (.leaf mark.text, skip d mark rest) := by
    rw [Reader.marker, if_neg (by simpa using other)]
    rfl
  refine ⟨_, skip d mark rest, ?_, mark.text, closes, List.reverse_cons, runs, here.free, here.free', done, ?_⟩
  · rw [unbudgeted_eq, Reader.turn, Reader.bind_ok (Reader.takePending_none here.free')]
    dsimp only
    rw [Reader.bind_ok (Reader.next?_cons left)]
    dsimp only
    rw [if_pos closes.symm, if_pos rfl]
    exact Reader.bind_ok leaf
  · rw [behind]
    rfl

/-- So it is behind an argument that has run up to its end. -/
theorem Stands.ends (symbols : SymbolTable) (sound : around.Sound) (runs : around.runs = true)
    (stands : around.Stands c d) (done : c.tokens = []) (consumed : Bool) (stack : List Node) :
    ∃ all last, unbudgeted symbols around.terminator .unbounded consumed stack d = .ok (all, last) ∧
      around.Finishes stack.reverse all c last := by
  cases stands with
  | beside here => exact here.ends symbols sound runs done consumed stack
  | @owed closing _ closes free _ owes left =>
    refine ⟨_, { d with pending := none }, ?_, closing, closes, List.reverse_cons, runs, free, rfl, done, left⟩
    have taken : Reader.takePending d = .ok (some (.leaf closing), { d with pending := none }) := by
      rw [Reader.takePending, owes]
    rw [unbudgeted_eq, Reader.turn, Reader.bind_ok taken]
    rfl

/-! ## Sequences -/

/-- What becomes of a sequence in other surroundings, of which the source has read the nodes. With a limit it
has the same nodes. Without one it goes on with them behind the tokens, or has ended with the terminator. -/
def Reaches (around : Surroundings) (symbols : SymbolTable) (run : Except Failure (List Node × Cursor))
    (nodes : List Node) (after : Cursor) : Limit → Prop
  | .nodes _ => ∃ last, run = .ok (nodes, last) ∧ around.Stands after last
  | .unbounded =>
    (∃ consumed last, run = unbudgeted symbols around.terminator .unbounded consumed nodes.reverse last ∧
      after.tokens = [] ∧ around.Beside [upTo none] after last) ∨
    ∃ all last, run = .ok (all, last) ∧ around.Finishes nodes all after last

/-- Where the tokens may run up to the end of the sequence, all that is left of them is read with the
terminator. -/
theorem optional_finishes (sound : around.Sound) (runs : around.runs = true) (stands : around.Stands c d)
    {nested : Reader.Nested}
    (reaches : ∀ nodes after, nested.sequence none .unbounded c = .ok (nodes, after) →
      around.Reaches symbols (unbudgeted symbols around.terminator .unbounded false [] d) nodes after .unbounded) :
    Mirrors (Reader.optional nested none) (Reader.optional (unbudgetedNested symbols) around.terminator) c d
      around.Finishes := by
  have more : (d.pending.isNone && d.tokens.isEmpty) = false := by
    obtain ⟨mark, rest, behind, -⟩ := sound.ends runs
    cases stands with
    | beside here => simp [here.tokens, behind]
    | owed _ _ _ _ owes => simp [owes]
  intro nodes after given
  rw [Reader.optional_eq more]
  rcases Reader.optional_ok given with ⟨-, done, rfl, rfl⟩ | ⟨-, read⟩
  · exact stands.ends symbols sound runs done false []
  · rcases reaches nodes after read with ⟨consumed, last, same, done, here⟩ | finished
    · simp only [unbudgetedNested, same]
      have ends := here.ends symbols sound runs done consumed nodes.reverse
      rwa [List.reverse_reverse] at ends
    · exact finished

/-- Every call that the source makes from a cursor on is met by the same call in other surroundings. -/
def Carries (around : Surroundings) (symbols : SymbolTable) (c : Cursor) : Prop :=
  ∀ d limit consumed stack nodes after, around.Stands c d →
    (consumed = true → limit.reachedBy stack.length = false) → Unmarked around.terminator stack →
    unbudgeted symbols none limit consumed stack c = .ok (nodes, after) →
    around.Reaches symbols (unbudgeted symbols around.terminator limit consumed stack d) nodes after limit

theorem below_ok {α : Type} {r : Reader α} {a : α} {mid : Cursor}
    (given : Reader.below c r mid = .ok (a, after)) :
    mid.tokens.length < c.tokens.length ∧ r mid = .ok (a, after) := by
  unfold Reader.below at given
  split at given
  · rename_i fewer
    exact ⟨fewer, given⟩
  · cases given

/-- Nested sequences are met if every call with fewer tokens is. -/
theorem mirrored_guarded (sound : around.Sound)
    (shorter : ∀ mid : Cursor, mid.tokens.length < c.tokens.length → around.Carries symbols mid) :
    Mirrored around (guardedNested symbols c) (unbudgetedNested symbols) where
  raw := rfl
  raw' := rfl
  inner {closing mid d} known here := by
    intro nodes after given
    have split := contained_split (rfl : Inside closing [upTo (some closing)]) here.genuine.last here.contained
    rcases Reader.optional_ok given with ⟨free, done, rfl, rfl⟩ | ⟨more, read⟩
    · rcases split with ⟨front, back, texts, closed, -⟩ | ⟨other, -⟩
      · rw [done] at texts
        obtain ⟨rfl, -⟩ := List.append_eq_nil_iff.mp texts.symm
        cases closed
      · exact .inr ⟨free, done, other, fun _ => rfl⟩
    obtain ⟨-, read⟩ := below_ok read
    rcases split with ⟨front, back, texts, closed, contained⟩ | ⟨other, left, scanned, within⟩
    · obtain ⟨taken, left, split, rfl, rfl⟩ := List.map_eq_append_iff.mp texts
      obtain ⟨done, free, reads⟩ := Reader.unbudgeted_inner known here.free split closed read
      obtain ⟨last, given', done', free'⟩ := reads (left ++ around.behind) d here.free'
        (by rw [here.tokens, split, List.append_assoc])
      have beyond : mid.Beyond around.behind d := ⟨here.tokens, here.free'.trans here.free.symm⟩
      refine .inl ⟨last, ?_, free, free', ?_, done ▸ contained, by rw [done', done]⟩
      · rw [Reader.optional_eq (Reader.some_to_read_beyond more beyond)]
        exact given'
      · refine here.genuine.suffix (List.IsSuffix.map _ ?_)
        rw [done, split]
        exact List.suffix_append _ _
    · have names : ∀ token ∈ mid.tokens, standsIn token.text = false :=
        fun token mem => here.genuine.names _ (List.mem_map_of_mem mem)
      exact .inr (Reader.unbudgeted_unclosed known here.free names other scanned within read)
  starved {count mid} free done := by
    intro nodes after given
    obtain ⟨-, read⟩ := below_ok given
    rw [Reader.unbudgeted_eq] at read
    rcases Reader.turn_ok free read with ⟨-, closed⟩ | ⟨_, _, _, _, left, -⟩
    · cases (Reader.close_none_ok closed).1
    · rw [done] at left
      cases left
  arguments {count mid d} stands := by
    intro nodes after given
    obtain ⟨fewer, read⟩ := below_ok given
    obtain ⟨last, given', stands'⟩ :=
      shorter mid fewer d (.nodes count) false [] nodes after stands nofun unmarked_nil read
    exact ⟨nodes, last, given', rfl, stands'⟩
  rest {mid d} runs stands := by
    refine optional_finishes sound runs stands fun nodes after given => ?_
    obtain ⟨fewer, read⟩ := below_ok given
    exact shorter mid fewer d .unbounded false [] nodes after stands nofun unmarked_nil read

/-- A sequence that has been read up to the end of the source. -/
theorem carries_end {limit : Limit} (sound : around.Sound) (stands : around.Stands c d) (done : c.tokens = [])
    (space : consumed = true → limit.reachedBy stack.length = false)
    (closed : Reader.close none limit consumed stack c = .ok (nodes, after)) :
    around.Reaches symbols (unbudgeted symbols around.terminator limit consumed stack d) nodes after limit := by
  obtain ⟨reads, rfl, rfl, full⟩ := Reader.close_none_ok closed
  cases limit with
  | nodes count =>
    have few := space reads
    rw [Limit.reachedBy, decide_eq_false_iff_not] at few
    exact absurd (full count rfl) few
  | unbounded =>
    cases stands with
    | beside here => exact .inl ⟨consumed, d, by rw [List.reverse_reverse], done, here⟩
    | owed runs closes free done owes left =>
      exact .inr (Stands.ends symbols sound runs (.owed runs closes free done owes left) done consumed stack)

/-- A sequence that a token has finished. -/
theorem carries_finished {limit : Limit} {progress : Progress} {mid mid' : Cursor} {closing : String}
    (closes : around.terminator = some closing) (past : around.Over mid mid')
    (closed : Reader.close none limit true progress.stack mid = .ok (nodes, after)) :
    around.Reaches symbols
      (Reader.close around.terminator limit true (.leaf closing :: progress.stack) mid') nodes after limit := by
  obtain ⟨-, rfl, rfl, full⟩ := Reader.close_none_ok closed
  cases limit with
  | nodes count =>
    rw [closes]
    exact ⟨_, Reader.close_marked (full count rfl),
      .owed past.runs closes past.free past.done rfl past.left⟩
  | unbounded => exact .inr ⟨_, mid', rfl, closing, closes, List.reverse_cons, past⟩

/-- Whatever sequences the source reads are read to the same nodes in other surroundings. -/
theorem carries (sound : around.Sound) (symbols : SymbolTable) (c : Cursor) : around.Carries symbols c := by
  induction length : c.tokens.length using Nat.strong_induction_on generalizing c with
  | _ count ih =>
    subst length
    intro d limit consumed stack nodes after stands space unmarked given
    have free : c.pending = none := by
      cases stands with
      | beside here => exact here.free
      | owed _ _ free => exact free
    rw [Reader.unbudgeted_guarded] at given
    rcases Reader.turn_ok free given with ⟨done, closed⟩ | ⟨token, rest, progress, mid, left, read, goesOn⟩
    · exact carries_end sound stands done space closed
    · cases stands with
      | owed _ _ _ done =>
        rw [left] at done
        cases done
      | beside here =>
        have contained := here.contained
        rw [left, List.map_cons] at contained
        obtain ⟨other, ends, -⟩ := contained_cons.mp contained
        have moved : advance [upTo none] token.text = some (opened token.text ++ [upTo none]) := by
          rw [advance, if_neg (Option.some_ne_none _)]
        obtain ⟨left', behind⟩ := here.next left moved
        have both := mirrored_guarded sound fun mid fewer => ih _ fewer mid rfl
        obtain ⟨progress', mid', read', goes⟩ :=
          both.token symbols stack sound (by simpa [skip] using ends rfl) behind progress mid read
        rw [unbudgeted_eq, Reader.turn_token here.free' left' (other rfl) read']
        cases goes with
        | finished closes finished made past =>
          rw [made]
          rw [finished] at goesOn
          exact carries_finished closes past goesOn
        | on same going stands' =>
          subst same
          have unmarked' : Unmarked around.terminator progress'.stack :=
            Reader.token_unmarked sound.known (other rfl) unmarked here.free' read' going
          cases full : limit.reachedBy progress'.stack.length with
          | false =>
            simp only [going, full, Bool.or_self, Bool.false_eq_true, if_false] at goesOn ⊢
            obtain ⟨fewer, again⟩ := below_ok goesOn
            exact ih _ fewer mid rfl mid' limit true progress'.stack nodes after stands' (fun _ => full)
              unmarked' again
          | true =>
            simp only [going, full, Bool.or_true, if_true] at goesOn ⊢
            obtain ⟨-, rfl, rfl, many⟩ := Reader.close_none_ok goesOn
            cases limit with
            | unbounded => cases full
            | nodes count => exact ⟨mid', Reader.close_unmarked unmarked' (many count rfl), stands'⟩

end Surroundings

/-! ## Words in other surroundings -/

theorem Formula.ofTokens?_optional {symbols : SymbolTable} {tokens : List Token} {stop : Nat}
    {nodes : List Node} (parsed : ofTokens? symbols tokens stop = .ok nodes) :
    ∃ after, Reader.optional (Reader.unbudgetedNested symbols) none { tokens, last := ⟨0, 0⟩, stop } =
      .ok (nodes, after) := by
  rw [ofTokens?_eq, unbudgetedTokens?] at parsed
  unfold Reader.optional
  rw [Reader.bind_ok (Reader.get_ok _)]
  dsimp only
  cases empty : tokens.isEmpty with
  | true =>
    rw [empty] at parsed
    cases parsed
    exact ⟨_, rfl⟩
  | false =>
    rw [empty, if_neg Bool.false_ne_true] at parsed
    rw [Bool.and_false, if_neg Bool.false_ne_true]
    cases run : Reader.unbudgeted symbols none .unbounded false [] { tokens, last := ⟨0, 0⟩, stop } with
    | error failure =>
      rw [run] at parsed
      cases parsed
    | ok result =>
      rw [run] at parsed
      cases parsed
      exact ⟨_, run⟩

namespace Reader

/-- Words that are accepted on their own, and contained where a sequence is read up to a terminator. -/
structure Accepted (symbols : SymbolTable) (terminator : Option String) (runs : Bool) (words : List String)
    (nodes : List Node) : Prop where
  genuine : Genuine words
  contained : Wait.contained terminator runs [upTo none] words = true
  parsed : ∃ tokens stop, tokens.map (·.text) = words ∧ Formula.ofTokens? symbols tokens stop = .ok nodes

variable {symbols : SymbolTable} {terminator : Option String} {runs : Bool} {words : List String}
  {nodes : List Node} {closing : String} {c : Cursor} {rest : List Token}

/-- Where there are nodes there are words. -/
theorem Accepted.words_ne_nil (accepted : Accepted symbols terminator runs words nodes) (some' : nodes ≠ []) :
    words ≠ [] := by
  rintro rfl
  obtain ⟨tokens, stop, texts, parsed⟩ := accepted.parsed
  obtain rfl := List.map_eq_nil_iff.mp texts
  cases parsed
  exact some' rfl

/-- They are read from every cursor before these words and nothing else. -/
theorem Accepted.read (accepted : Accepted symbols terminator runs words nodes) (free : c.pending = none)
    (texts : c.tokens.map (·.text) = words) :
    ∃ after, optional (unbudgetedNested symbols) none c = .ok (nodes, after) := by
  obtain ⟨tokens, stop, texts', parsed⟩ := accepted.parsed
  obtain ⟨after, given⟩ := Formula.ofTokens?_optional parsed
  have same : Cursor.SameTexts { tokens, last := ⟨0, 0⟩, stop } c := ⟨texts'.trans texts.symm, free.symm⟩
  have repeats : Repeats (optional (unbudgetedNested symbols) none) (optional (unbudgetedNested symbols) none) :=
    .optional (Repeats.unbudgeted symbols)
  obtain ⟨last, given', -⟩ := repeats _ c nodes after same given
  exact ⟨last, given'⟩

/-- The cursor before the words alone. -/
theorem Accepted.beside (accepted : Accepted symbols terminator runs words nodes) (before : Before c words rest) :
    ∃ here : Cursor, here.pending = none ∧ here.tokens.map (·.text) = words ∧
      Surroundings.Beside ⟨terminator, runs, rest⟩ [upTo none] here c := by
  obtain ⟨tokens, texts, split⟩ := before.words
  exact ⟨{ c with tokens }, before.free, texts, before.free, before.free, texts ▸ accepted.genuine,
    texts ▸ accepted.contained, split⟩

/-- Up to the terminator a sequence reads the nodes that the words have on their own, and the terminator. -/
theorem Accepted.optional (accepted : Accepted symbols (some closing) true words nodes)
    (known : Closing (some closing)) (plain : closing ≠ "\\right")
    (before : Before c (words ++ [closing]) rest) :
    Gives (Reader.optional (unbudgetedNested symbols) (some closing)) c (nodes ++ [.leaf closing]) rest := by
  obtain ⟨tokens, ends, first⟩ := before.split
  obtain ⟨mark, others, rfl, rfl, none'⟩ := List.map_eq_cons_iff.mp ends
  obtain rfl := List.map_eq_nil_iff.mp none'
  obtain ⟨here, free, texts, beside⟩ := accepted.beside first
  have sound : Surroundings.Sound ⟨some mark.text, true, mark :: rest⟩ :=
    ⟨known, fun _ => ⟨mark, rest, rfl, rfl, plain⟩⟩
  obtain ⟨after, read⟩ := accepted.read free texts
  have finishes : Mirrors (Reader.optional (unbudgetedNested symbols) none) _ here c _ :=
    Surroundings.optional_finishes sound rfl (.beside beside) fun nodes after =>
      Surroundings.carries sound symbols here c .unbounded false [] nodes after (.beside beside) nofun unmarked_nil
  obtain ⟨_, last, given, closing, ⟨⟩, rfl, past⟩ := finishes nodes after read
  exact ⟨last, given, past.left, past.free'⟩

/-- A group reads the nodes that the words have on their own. -/
theorem Accepted.group (accepted : Accepted symbols (some closing) true words nodes)
    (known : Closing (some closing)) (plain : closing ≠ "\\right")
    (before : Before c (words ++ [closing]) rest) :
    Gives (Reader.group (unbudgetedNested symbols) closing) c nodes rest := by
  have given := gives_stripped (accepted.optional known plain before)
  rwa [stripped_concat] at given

/-- In front of anything a sequence goes on with the nodes that the words have on their own. -/
theorem Accepted.goesOn (accepted : Accepted symbols terminator false words nodes) (known : Closing terminator)
    (some' : nodes ≠ []) (before : Before c words rest) :
    ∃ consumed after, after.tokens = rest ∧ after.pending = none ∧
      unbudgeted symbols terminator .unbounded false [] c =
        unbudgeted symbols terminator .unbounded consumed nodes.reverse after := by
  obtain ⟨here, free, texts, beside⟩ := accepted.beside before
  have sound : Surroundings.Sound ⟨terminator, false, rest⟩ := ⟨known, nofun⟩
  obtain ⟨after, read⟩ := accepted.read free texts
  rcases optional_ok read with ⟨-, done, -⟩ | ⟨-, given⟩
  · rw [done] at texts
    exact absurd texts.symm (accepted.words_ne_nil some')
  · rcases Surroundings.carries sound symbols here c .unbounded false [] nodes after (.beside beside) nofun
      unmarked_nil given with ⟨consumed, last, same, done, behind⟩ | ⟨_, _, _, _, _, _, past⟩
    · exact ⟨consumed, last, by rw [behind.tokens, done, List.nil_append], behind.free', same⟩
    · exact absurd past.runs nofun

end Reader

end FormulaMarkup

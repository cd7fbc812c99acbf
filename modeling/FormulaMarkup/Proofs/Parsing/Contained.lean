import FormulaMarkup.Proofs.Parsing.Locality
import FormulaMarkup.Proofs.Parsing.NamedLeaves
import FormulaMarkup.Proofs.Parsing.Success

/-!
Tokens that are contained where they are put. No brace among them is left open, and at their outermost level
there is no token that would end the sequence that they are put into. Main statement: a sequence that is
opened among such tokens is closed among them and read in the same way wherever they are put, or it goes on
to their end without its closing token.
-/
namespace FormulaMarkup

namespace Wait

/-- Whether the next token is read for the whole source: as a token of it, or for an argument of one that
is no node. -/
def outermost : List Wait → Bool
  | upTo closing :: _ => closing.isNone
  | raw :: below | fence :: below | bracket :: below => outermost below
  | text :: _ | [] => false

/-- Whether the next token, unless it is a bracket that opens a label, starts something in the whole source. -/
def starts : List Wait → Bool
  | upTo closing :: _ => closing.isNone
  | bracket :: below => starts below
  | _ => false

/-- Whether a token before another one starts what runs up to the end of the sequence around it. -/
def runsOn (token : String) (next : Option String) : Bool :=
  match Shape.of? token with
  | some .color | some (.infixFraction _) => true
  | some .table => next != some Word.openBrace
  | _ => false

/-- Whether a closing brace is waited for. -/
def braced (waits : List Wait) : Bool :=
  waits.contains text || waits.contains (upTo (some Word.closeBrace))

/-- Whether tokens are contained where a sequence is read up to a terminator. All braces that open a group or
a text are closed. At the outermost level the terminator is not met, and nothing runs up to the end of the
sequence unless that is allowed. -/
def contained (terminator : Option String) (runs : Bool) : List Wait → List String → Bool
  | waits, [] => !braced waits
  | waits, token :: rest =>
    (!outermost waits || some token != terminator) &&
      (!starts waits || runs || !runsOn token rest.head?) &&
      (advance waits token).any fun next => contained terminator runs next rest

variable {terminator : Option String} {runs : Bool} {waits below inner : List Wait} {token closing : String}
  {rest tokens : List String}

/-- What it takes for a token and those behind it to be contained. -/
structure Passes (terminator : Option String) (runs : Bool) (waits : List Wait) (token : String)
    (rest : List String) : Prop where
  other : outermost waits = true → some token ≠ terminator
  ends : starts waits = true → runs = true ∨ runsOn token rest.head? = false
  goesOn : ∃ next, advance waits token = some next ∧ contained terminator runs next rest = true

theorem contained_cons : contained terminator runs waits (token :: rest) = true ↔
    Passes terminator runs waits token rest := by
  rw [contained, Bool.and_eq_true, Bool.and_eq_true, Option.any_eq_true]
  constructor
  · rintro ⟨⟨other, ends⟩, goesOn⟩
    refine ⟨fun outer => ?_, fun start => ?_, goesOn⟩
    · simpa [outer] using other
    · simpa [start] using ends
  · rintro ⟨other, ends, goesOn⟩
    refine ⟨⟨?_, ?_⟩, goesOn⟩
    · cases outer : outermost waits with
      | false => rfl
      | true => simpa using other outer
    · cases start : starts waits with
      | false => rfl
      | true => simpa using ends start

theorem contained_nil : contained terminator runs waits [] = true ↔
    text ∉ waits ∧ upTo (some Word.closeBrace) ∉ waits := by
  simp [contained, braced]

/-- The next token moves on what is waited for. -/
theorem contained_advance {next : List Wait} (holds : contained terminator runs waits (token :: rest) = true)
    (moved : advance waits token = some next) : contained terminator runs next rest = true := by
  obtain ⟨next', moved', holds'⟩ := (contained_cons.mp holds).goesOn
  rw [moved] at moved'
  cases moved'
  exact holds'

/-- What is contained up to a terminator is contained in a source. -/
theorem contained_none (holds : contained terminator runs waits tokens = true) :
    contained none runs waits tokens = true := by
  induction tokens generalizing waits with
  | nil => exact holds
  | cons token rest ih =>
    obtain ⟨-, ends, next, moved, holds'⟩ := contained_cons.mp holds
    exact contained_cons.mpr ⟨fun _ => Option.some_ne_none token, ends, next, moved, ih holds'⟩

/-- A bracket that is not answered is not waited for. -/
theorem contained_unanswered (holds : contained terminator runs (bracket :: waits) (token :: rest) = true)
    (other : token ≠ "[") : contained terminator runs waits (token :: rest) = true := by
  have same : advance (bracket :: waits) token = advance waits token := by rw [advance, if_neg other]
  obtain ⟨first, second, third⟩ := contained_cons.mp holds
  rw [same] at third
  exact contained_cons.mpr ⟨first, second, third⟩

/-- Behind the brace that closes a text. -/
theorem contained_text (holds : contained terminator runs (text :: waits) tokens = true) :
    Word.closeBrace ∈ tokens ∧ contained terminator runs waits
      (tokens.drop ((tokens.takeWhile (· != Word.closeBrace)).length + 1)) = true := by
  induction tokens with
  | nil => exact absurd List.mem_cons_self (contained_nil.mp holds).1
  | cons token rest ih =>
    by_cases closing : token = Word.closeBrace
    · have popped : advance (text :: waits) token = some waits := by rw [advance, if_pos closing]
      refine ⟨closing ▸ List.mem_cons_self, ?_⟩
      simpa [closing] using contained_advance holds popped
    · have kept : advance (text :: waits) token = some (text :: waits) := by rw [advance, if_neg closing]
      obtain ⟨mem, behind⟩ := ih (contained_advance holds kept)
      refine ⟨List.mem_cons_of_mem _ mem, ?_⟩
      simpa [closing] using behind

/-! ## Sequences that are opened -/

/-- Inside a sequence its end is waited for below everything else. -/
def Inside (closing : String) (inner : List Wait) : Prop := inner.getLast? = some (upTo (some closing))

theorem Inside.behind {wait : Wait} (inside : Inside closing (wait :: below)) :
    wait = upTo (some closing) ∧ below = [] ∨ Inside closing below := by
  cases below with
  | nil => exact .inl ⟨Option.some.inj inside, rfl⟩
  | cons first rest => exact .inr (by rwa [Inside, List.getLast?_cons_cons] at inside)

theorem Inside.append (front : List Wait) (inside : Inside closing below) : Inside closing (front ++ below) := by
  rw [Inside, List.getLast?_append, inside, Option.some_or]

/-- What a token within a sequence makes of what is waited for: it goes on, or its end is met, which takes a
delimiter along if it is a `\right`. -/
inductive Moves (closing token : String) : List Wait → Prop
  | inside {next : List Wait} (inside : Inside closing next) : Moves closing token next
  | closed : Moves closing token []
  | right (right : token = "\\right") : Moves closing token [raw]

/-- Where something else is waited for above the end, a token that is done with it goes on. -/
theorem Inside.popped {wait : Wait} (inside : Inside closing (wait :: below))
    (other : wait ≠ upTo (some closing)) : Inside closing below :=
  inside.behind.resolve_left fun only => other only.1

/-- A token within a sequence does not touch what is waited for below it. -/
theorem advance_append (outer : List Wait) (token : String) (inside : Inside closing inner) :
    ∃ next, advance inner token = some next ∧ advance (inner ++ outer) token = some (next ++ outer) ∧
      Moves closing token next := by
  induction inner with
  | nil => cases inside
  | cons wait below ih =>
    cases wait with
    | upTo closes =>
      by_cases ends : some token = closes
      · by_cases right : token = "\\right"
        · refine ⟨raw :: below, ?_, ?_, ?_⟩
          · rw [advance, if_pos ends, if_pos right]
          · rw [List.cons_append, advance, if_pos ends, if_pos right, List.cons_append]
          · rcases inside.behind with ⟨-, rfl⟩ | within
            · exact .right right
            · exact .inside (within.append [raw])
        · refine ⟨below, ?_, ?_, ?_⟩
          · rw [advance, if_pos ends, if_neg right]
          · rw [List.cons_append, advance, if_pos ends, if_neg right]
          · rcases inside.behind with ⟨-, rfl⟩ | within
            · exact .closed
            · exact .inside within
      · refine ⟨opened token ++ upTo closes :: below, ?_, ?_, .inside (inside.append _)⟩
        · rw [advance, if_neg ends]
        · rw [List.cons_append, advance, if_neg ends, List.append_assoc, List.cons_append]
    | raw => exact ⟨below, rfl, rfl, .inside (inside.popped (by simp))⟩
    | fence =>
      have below' := inside.popped (by simp)
      by_cases opens : token = Word.openBrace
      · refine ⟨text :: below, ?_, ?_, .inside (below'.append [text])⟩
        · rw [advance, if_pos opens]
        · rw [List.cons_append, advance, if_pos opens, List.cons_append]
      · refine ⟨below, ?_, ?_, .inside below'⟩
        · rw [advance, if_neg opens]
        · rw [List.cons_append, advance, if_neg opens]
    | text =>
      by_cases ends : token = Word.closeBrace
      · refine ⟨below, ?_, ?_, .inside (inside.popped (by simp))⟩
        · rw [advance, if_pos ends]
        · rw [List.cons_append, advance, if_pos ends]
      · refine ⟨text :: below, ?_, ?_, .inside inside⟩
        · rw [advance, if_neg ends]
        · rw [List.cons_append, advance, if_neg ends]
    | bracket =>
      have below' := inside.popped (by simp)
      by_cases opens : token = "["
      · refine ⟨upTo (some "]") :: below, ?_, ?_, .inside (below'.append [upTo (some "]")])⟩
        · rw [advance, if_pos opens]
        · rw [List.cons_append, advance, if_pos opens, List.cons_append]
      · obtain ⟨next, moved, moved', moves⟩ := ih below'
        refine ⟨next, ?_, ?_, moves⟩
        · rw [advance, if_neg opens, moved]
        · rw [List.cons_append, advance, if_neg opens, moved']

/-- A sequence that is opened among contained tokens is closed among them, or goes on to their end. A group in
braces is closed. -/
theorem contained_split (inside : Inside closing inner) (last : tokens.getLast? ≠ some "\\right")
    (holds : contained terminator runs (inner ++ [upTo none]) tokens = true) :
    (∃ front back, tokens = front ++ back ∧ scan inner front = some [] ∧
        contained terminator runs [upTo none] back = true) ∨
      closing ≠ Word.closeBrace ∧ ∃ left, scan inner tokens = some left ∧ Inside closing left := by
  induction tokens generalizing inner with
  | nil =>
    refine .inr ⟨?_, inner, rfl, inside⟩
    rintro rfl
    exact (contained_nil.mp holds).2 (List.mem_append_left _ (List.mem_of_getLast? inside))
  | cons token rest ih =>
    obtain ⟨next, moved, moved', moves⟩ := advance_append [upTo none] token inside
    have holds' := contained_advance holds moved'
    have step (others : List String) : scan inner (token :: others) = scan next others := by
      rw [scan, moved]
      rfl
    cases moves with
    | inside within =>
      have last' : rest.getLast? ≠ some "\\right" := fun same => last (by rw [List.getLast?_cons, same]; rfl)
      rcases ih within last' holds' with ⟨front, back, rfl, closed, behind⟩ | ⟨other, left, scanned, within'⟩
      · exact .inl ⟨token :: front, back, rfl, (step front).trans closed, behind⟩
      · exact .inr ⟨other, left, (step rest).trans scanned, within'⟩
    | closed => exact .inl ⟨[token], rest, rfl, step [], holds'⟩
    | right right =>
      cases rest with
      | nil => exact absurd (congrArg some right) last
      | cons delimiter back =>
        exact .inl ⟨[token, delimiter], back, rfl, step [delimiter], contained_advance holds' rfl⟩

end Wait

/-- Words of which none stands in for a closing token, and of which the last one is no `\right`. -/
structure Genuine (words : List String) : Prop where
  names : ∀ word ∈ words, standsIn word = false
  last : words.getLast? ≠ some "\\right"

theorem Genuine.suffix {words back : List String} (genuine : Genuine words) (behind : back <:+ words) :
    Genuine back := by
  refine ⟨fun word mem => genuine.names word (behind.subset mem), fun last => genuine.last ?_⟩
  obtain ⟨front, rfl⟩ := behind
  rw [List.getLast?_append, last, Option.some_or]

/-! ## Sequences that are read -/

theorem namesEnd_ending (header : String) : namesEnd (Wait.ending header) = true := by
  unfold namesEnd Wait.ending
  rw [Word.inside?_around, Option.isSome_some, Bool.or_true]

namespace Reader

open Wait

variable {symbols : SymbolTable} {terminator : Option String} {limit : Limit} {consumed : Bool}
  {stack nodes : List Node} {closing : String} {c after : Cursor} {front back : List Token}

/-- A call is read as its trail says. -/
theorem unbudgeted_left (symbols : SymbolTable) {trail : Trail} {below : List Wait} (known : Closing terminator)
    (unmarked : Unmarked terminator stack) (stands : trail.Stands terminator below c) :
    Ends (unbudgeted symbols terminator limit consumed stack) c (trail.Left terminator below limit) := by
  have plain := (sequence_same symbols trail.room terminator limit consumed stack c stands.fits).1
  have ends := (watchedSequence_same symbols trail.room trail terminator limit below consumed stack c rfl known
    unmarked stands).2
  rwa [Ends, plain] at ends

/-- What is read of a sequence goes up to the token that closes it, and is read in front of anything. -/
theorem unbudgeted_inner (known : Closing (some closing)) (free : c.pending = none)
    (split : c.tokens = front ++ back) (closed : scan [upTo (some closing)] (front.map (·.text)) = some [])
    (given : unbudgeted symbols (some closing) .unbounded false [] c = .ok (nodes, after)) :
    after.tokens = back ∧ after.pending = none ∧ ∀ behind d, d.pending = none → d.tokens = front ++ behind →
      ∃ last, unbudgeted symbols (some closing) .unbounded false [] d = .ok (nodes, last) ∧
        last.tokens = behind ∧ last.pending = none := by
  let inside : Cursor := { c with tokens := front }
  let trail := inside.trail (some closing) (front.length + 1)
  have closed' : trail.Closed := by
    unfold trail
    rw [Trail.Closed, Cursor.trail, free]
    exact closed
  have stands : trail.Stands (some closing) [] inside :=
    Trail.stands_start (Nat.lt_succ_self _) (by simp [inside, free])
  have settled (behind : List Token) := sequence_settles symbols behind (front.length + 1) trail closed'
    (some closing) .unbounded [] false [] inside rfl known unmarked_nil stands
  have beyond : inside.Beyond back c := ⟨split, rfl⟩
  cases read : sequence symbols (some closing) .unbounded (front.length + 1) false [] inside with
  | error failure =>
    obtain ⟨failure', refused⟩ := (settled back).2 failure read c beyond
    rw [given] at refused
    cases refused
  | ok result =>
    obtain ⟨all, mid⟩ := result
    obtain ⟨complete, reads⟩ := (settled back).1 all mid read
    obtain ⟨last, given', behind⟩ := reads c beyond
    rw [given] at given'
    cases given'
    have done : mid.tokens = [] := Trail.Complete.done closed' complete
    have free' : mid.pending = none := complete.1
    refine ⟨?_, behind.pending.trans free', fun behind d owed left => ?_⟩
    · rw [behind.tokens, done, List.nil_append]
    · obtain ⟨last, given', behind'⟩ := ((settled behind).1 _ _ read).2 d ⟨left, owed.trans free.symm⟩
      refine ⟨last, given', ?_, behind'.pending.trans free'⟩
      rw [behind'.tokens, done, List.nil_append]

/-- All nodes of a call keep an invariant. -/
theorem unbudgeted_meets {fine : String → Prop} {good : Node → Prop} (invariant : Invariant symbols fine good)
    (known : Closing terminator) (here : c.Meets fine good)
    (given : unbudgeted symbols terminator limit false [] c = .ok (nodes, after)) :
    ∀ node ∈ nodes, good node := by
  have plain := (sequence_same symbols (c.tokens.length + 1) terminator limit false [] c (Nat.lt_succ_self _)).1
  exact (sequence_meets invariant known (List.forall_mem_nil _) here (plain.trans given)).1

/-- A sequence that the source ends in, without its closing token. -/
structure Unclosed (closing : String) (nodes : List Node) (after : Cursor) : Prop where
  free : after.pending = none
  done : after.tokens = []
  unbraced : closing ≠ Word.closeBrace
  unnamed : namesEnd closing = true → nodes.getLast?.any (·.is closing) = false

/-- A sequence of which the closing token is not met goes on to the end of the source. -/
theorem unbudgeted_unclosed {left : List Wait} (known : Closing (some closing)) (free : c.pending = none)
    (names : ∀ token ∈ c.tokens, standsIn token.text = false) (unbraced : closing ≠ Word.closeBrace)
    (scanned : scan [upTo (some closing)] (c.tokens.map (·.text)) = some left) (inside : Inside closing left)
    (given : unbudgeted symbols (some closing) .unbounded false [] c = .ok (nodes, after)) :
    Unclosed closing nodes after := by
  let trail := c.trail (some closing) (c.tokens.length + 1)
  have stands : trail.Stands (some closing) [] c :=
    Trail.stands_start (Nat.lt_succ_self _) (by simp [free])
  have complete : Ends (unbudgeted symbols (some closing) .unbounded false []) c _ :=
    unbudgeted_left symbols known unmarked_nil stands
  rw [Ends, given] at complete
  obtain ⟨free', front, marker, rfl, unmarked, ended⟩ := complete
  have waits : trail.waits = [upTo (some closing)] := by simp [trail, Cursor.trail, free]
  -- The tokens that are taken leave something within the sequence to be waited for.
  have open' {others : List Wait} (here : trail.At others after.tokens) :
      ∃ idle, scan others (after.tokens.map (·.text)) = some idle ∧ Inside closing idle := by
    obtain ⟨-, taken, split, reached⟩ := here
    have whole : scan [upTo (some closing)] ((taken ++ after.tokens).map (·.text)) = some left :=
      (congrArg (fun tokens => scan _ (tokens.map (·.text))) split).symm.trans scanned
    rw [List.map_append, scan_append, ← waits, reached] at whole
    exact ⟨left, whole, inside⟩
  cases marker with
  | none =>
    obtain ⟨done, -⟩ := ended
    refine ⟨free', done, unbraced, fun ends => ?_⟩
    have leaves := unbudgeted_meets (endLeaf_invariant symbols) known ⟨names, by simp [free]⟩ given
    rw [Option.toList_none, List.append_nil] at leaves ⊢
    rw [← Bool.not_eq_true, Option.any_eq_true]
    rintro ⟨node, last, named⟩
    have mem := List.mem_of_getLast? last
    have marked := Node.marks_of_is (leaves node mem) ends named
    rw [unmarked node mem] at marked
    cases marked
  | some marker =>
    rcases ended.2 with here | ⟨here, done⟩
    · obtain ⟨idle, reached, within⟩ := open' here
      cases tokens : after.tokens with
      | nil =>
        rw [tokens] at reached
        cases reached
        cases within
      | cons token rest =>
        rw [tokens] at reached
        cases reached
    · obtain ⟨idle, reached, within⟩ := open' here
      rw [done] at reached
      cases reached
      cases within

end Reader

end FormulaMarkup

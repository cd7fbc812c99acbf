import FormulaMarkup.Proofs.Parsing.Inverse
import FormulaMarkup.Proofs.Parsing.Locality
import FormulaMarkup.Proofs.Parsing.Places
import FormulaMarkup.Proofs.Parsing.ScriptForms

/-!
Groups in any place. Words that are a group on their own are that group wherever they stand, in front of
anything: as an argument, and so as a script. Main statements: the group as an argument, and a script that
is one as a step of a sequence.
-/
namespace FormulaMarkup

open Wait

namespace Reader

/-- Words that are read as a group: in braces they are one node, and behind them nothing but the brace
that closes it is waited for. So every brace among them that opens a group has its own closing one, and
the last of them is no `\right`, which would take the brace as its delimiter. -/
structure Grouped (symbols : SymbolTable) (words : List String) (nodes : List Node) : Prop where
  closed : scan [upTo (some Word.closeBrace)] words = some [upTo (some Word.closeBrace)]
  parsed : ∃ tokens stop, tokens.map (·.text) = inBraces words ∧
    Formula.ofTokens? symbols tokens stop = .ok [.braces nodes]

variable {symbols : SymbolTable} {words : List String} {nodes stack stack' : List Node} {c : Cursor}
  {rest : List Token} {terminator : Option String} {limit : Limit} {consumed : Bool}

/-! ## Up to the closing brace -/

/-- What is read up to the brace that closes a group is all there is, and is read in front of anything. -/
theorem sequence_closed {budget : Nat} {all : List Node} {after : Cursor}
    (closed : scan [upTo (some Word.closeBrace)] (c.tokens.map (·.text)) = some [])
    (free : c.pending = none) (fits : c.tokens.length < budget)
    (read : sequence symbols (some Word.closeBrace) .unbounded budget false [] c = .ok (all, after)) :
    after.tokens = [] ∧ after.pending = none ∧ ∀ rest d, c.Beyond rest d →
      Gives (unbudgeted symbols (some Word.closeBrace) .unbounded false []) d all rest := by
  have known : Closing (some Word.closeBrace) := closing_of_mem (by decide)
  have closed' : (c.trail (some Word.closeBrace) budget).Closed := by
    rw [Trail.Closed, Cursor.trail, free]
    exact closed
  have stands : (c.trail (some Word.closeBrace) budget).Stands (some Word.closeBrace) [] c :=
    Trail.stands_start fits (by simp [free])
  have goesOn (rest : List Token) := sequence_extends symbols rest budget _ closed' _ .unbounded [] false
    [] c rfl known unmarked_nil stands all after read
  have complete := (goesOn []).1
  have free' : after.pending = none := complete.1
  have done : after.tokens = [] := complete.done closed'
  refine ⟨done, free', fun rest d beyond => ?_⟩
  obtain ⟨last, given, beyond'⟩ := (goesOn rest).2 d beyond
  refine ⟨last, given, ?_, beyond'.pending.trans free'⟩
  rw [beyond'.tokens, done, List.nil_append]

theorem token_group_ok {nested : Nested} {token : Token} {progress : Progress} {after : Cursor}
    (opens : token.text = Word.openBrace)
    (given : Reader.token symbols nested terminator token stack c = .ok (progress, after)) :
    ∃ all, optional nested (some Word.closeBrace) c = .ok (all, after) ∧
      progress = ⟨.braces (stripped Word.closeBrace all) :: stack, false⟩ := by
  rw [token_openBrace opens] at given
  obtain ⟨nodes, mid, grouped, given⟩ := bind_ok_iff.mp given
  obtain ⟨rfl, rfl⟩ := pure_ok_iff.mp given
  obtain ⟨all, read, rfl⟩ := group_ok grouped
  exact ⟨all, read, rfl⟩

/-- The group on its own: what is read in it up to its end, with the leaf of the closing brace. -/
theorem Grouped.read (grouped : Grouped symbols words nodes) :
    ∃ budget c all after, c.pending = none ∧ c.tokens.map (·.text) = words ++ [Word.closeBrace] ∧
      c.tokens.length < budget ∧
      sequence symbols (some Word.closeBrace) .unbounded budget false [] c = .ok (all, after) ∧
      nodes = stripped Word.closeBrace all := by
  obtain ⟨tokens, stop, texts, parsed⟩ := grouped.parsed
  obtain ⟨opening, tail, rfl, opens, behind⟩ := List.map_eq_cons_iff.mp texts
  have closed : scan [upTo (some Word.closeBrace)] (tail.map (·.text)) = some [] := by
    rw [behind, scan_append, grouped.closed]
    rfl
  obtain ⟨absurd, -⟩ | ⟨last, given⟩ := Formula.ofTokens?_ok parsed
  · cases absurd
  cases sequence_ok given with
  | owed owes => cases owes
  | ended _ done => cases done
  | closed _ _ closes => cases closes
  | last _ left _ read full =>
    obtain ⟨rfl, rfl⟩ := List.cons.inj left
    obtain ⟨all, -, rfl⟩ := token_group_ok opens read
    cases full
  | more _ left _ read _ again =>
    obtain ⟨rfl, rfl⟩ := List.cons.inj left
    obtain ⟨all, optional, rfl⟩ := token_group_ok opens read
    rcases optional_ok optional with ⟨-, empty, -⟩ | ⟨-, inside⟩
    · have none : tail = [] := empty
      rw [none] at behind
      simp at behind
    · have fits : tail.length < (opening :: tail).length := Nat.lt_succ_self _
      obtain ⟨done, free, -⟩ := sequence_closed closed rfl fits inside
      refine ⟨_, _, all, _, rfl, behind, fits, inside, ?_⟩
      cases sequence_ok again with
      | owed owes =>
        rw [free] at owes
        cases owes
      | ended _ _ closed =>
        obtain ⟨made, -⟩ := pure_ok_iff.mp closed
        simpa [Node.braces, Node.withChildren] using made.symm
      | closed _ left =>
        rw [done] at left
        cases left
      | last _ left =>
        rw [done] at left
        cases left
      | more _ left =>
        rw [done] at left
        cases left

theorem gives_stripped {nested : Nested} {closing : String} {all : List Node}
    (given : Gives (optional nested (some closing)) c all rest) :
    Gives (Reader.group nested closing) c (stripped closing all) rest := by
  unfold Reader.group stripped
  refine given.bind ?_
  intro d left free
  split
  · exact .pure left free
  · exact .pure left free

theorem stripped_concat (closing : String) (nodes : List Node) :
    stripped closing (nodes ++ [.leaf closing]) = nodes := by
  rw [stripped, if_pos (by simp [Node.is, Node.leaf]), List.dropLast_concat]

/-- A group is read to its nodes in front of anything. -/
theorem Grouped.group (grouped : Grouped symbols words nodes)
    (before : Before c (words ++ [Word.closeBrace]) rest) :
    Gives (Reader.group (unbudgetedNested symbols) Word.closeBrace) c nodes rest := by
  obtain ⟨budget, d, all, after, free, texts, fits, read, rfl⟩ := grouped.read
  obtain ⟨tokens, texts', split⟩ := before.words
  -- The same tokens as far as the group goes, at the places where they stand here.
  let here : Cursor := { c with tokens }
  have same : d.SameTexts here := ⟨texts.trans texts'.symm, free.trans before.free.symm⟩
  obtain ⟨last, read', -⟩ := Repeats.sequence symbols budget d here all after same read
  have closed : scan [upTo (some Word.closeBrace)] (here.tokens.map (·.text)) = some [] := by
    rw [texts', scan_append, grouped.closed]
    rfl
  have fits' : here.tokens.length < budget := by
    have length := congrArg List.length same.texts
    rw [List.length_map, List.length_map] at length
    omega
  have gives := (sequence_closed closed before.free fits' read').2.2 rest c ⟨split, rfl⟩
  exact gives_stripped (.of_eq (optional_eq (before.some_to_read (by simp))) gives)

/-! ## A group as an argument -/

theorem unbudgeted_token {token : Token} {tail : List Token} {after : Cursor} (free : c.pending = none)
    (left : c.tokens = token :: tail) (other : some token.text ≠ terminator)
    (given : Reader.token symbols (unbudgetedNested symbols) terminator token stack (skip c token tail) =
      .ok (⟨stack', false⟩, after)) :
    unbudgeted symbols terminator limit consumed stack c =
      (if limit.reachedBy stack'.length then Reader.close terminator limit true stack'
        else unbudgeted symbols terminator limit true stack') after := by
  rw [unbudgeted_eq, turn_token free left other given]
  rfl

/-- At the end of the source its sequence is at an end. -/
theorem unbudgeted_end (free : c.pending = none) (done : c.tokens = []) :
    unbudgeted symbols none .unbounded true stack c = .ok (stack.reverse, c) := by
  rw [unbudgeted_eq, turn, bind_ok (takePending_none free)]
  dsimp only
  rw [bind_ok (next?_nil done)]
  rfl

/-- A group is read as one node. -/
theorem Grouped.argument (grouped : Grouped symbols words nodes) (known : Closing terminator)
    (before : Before c (inBraces words) rest) :
    Gives (Reader.argument (unbudgetedNested symbols) terminator) c (.braces nodes) rest := by
  obtain ⟨brace, tail, left, text, behind⟩ := Before.next before
  obtain ⟨after, given, left', free⟩ := grouped.group behind
  have read : Reader.token symbols (unbudgetedNested symbols) terminator brace [] (skip c brace tail) =
      .ok (⟨[.braces nodes], false⟩, after) := by
    rw [token_openBrace text]
    exact bind_ok given
  have full : unbudgeted symbols terminator (.nodes 1) false [] c =
      Reader.close terminator (.nodes 1) true [.braces nodes] after :=
    unbudgeted_token before.free left (text ▸ known.ne_openBrace) read
  unfold Reader.argument
  refine .bind (.of_eq full (gives_close left' free)) ?_
  intro d left free
  exact .pure left free

/-! ## A group as a script -/

variable {kind : ScriptKind} {span : Span} {cause : Cause}

/-- Where a script goes is found out before its argument is read. -/
theorem script_eq {nested : Nested} :
    Reader.script nested terminator kind span stack =
      match Script.target kind stack with
      | .error cause => refuse span cause
      | .ok target => do
        let argument ← Reader.argument nested terminator
        return ⟨Script.attach kind target.modifier target.base argument :: target.below, false⟩ := by
  unfold Reader.script Script.target
  dsimp only
  cases Script.conflict? kind (stack.head?.getD (.braces [])) with
  | some cause => rfl
  | none =>
    dsimp only
    split
    · cases stack.tail with
      | nil => rfl
      | cons operator deeper =>
        dsimp only
        split
        · rfl
        · rfl
    · rfl

theorem Grouped.script (grouped : Grouped symbols words nodes) (known : Closing terminator)
    (before : Before c (inBraces words) rest)
    (put : Script.put kind (.braces nodes) stack = .ok stack') :
    Gives (Reader.script (unbudgetedNested symbols) terminator kind span stack) c ⟨stack', false⟩
      rest := by
  rw [script_eq]
  unfold Script.put at put
  cases found : Script.target kind stack with
  | error cause =>
    rw [found] at put
    cases put
  | ok target =>
    rw [found] at put
    cases put
    refine (grouped.argument known before).bind ?_
    intro d left free
    exact .pure left free

theorem script_refused {nested : Nested} {argument : Node}
    (put : Script.put kind argument stack = .error cause) :
    Reader.script nested terminator kind span stack c = .error (.refused ⟨span, cause⟩) := by
  rw [script_eq]
  unfold Script.put at put
  cases found : Script.target kind stack with
  | error cause =>
    rw [found] at put
    cases put
    rfl
  | ok target =>
    rw [found] at put
    cases put

theorem ne_script (known : Closing terminator) : some kind.token ≠ terminator := by
  cases kind with
  | sub => exact known.ne_of (by decide) (by decide)
  | sup => exact known.ne_of (by decide) (by decide)

/-- A script in a sequence: reading goes on behind it with what it makes of the stack. -/
theorem Grouped.step (grouped : Grouped symbols words nodes) (known : Closing terminator)
    (before : Before c (kind.token :: inBraces words) rest)
    (put : Script.put kind (.braces nodes) stack = .ok stack') :
    ∃ after, after.tokens = rest ∧ after.pending = none ∧
      unbudgeted symbols terminator .unbounded consumed stack c =
        unbudgeted symbols terminator .unbounded true stack' after := by
  obtain ⟨mark, tail, left, text, behind⟩ := before.next
  obtain ⟨after, given, left', free⟩ : Gives
      (Reader.script (unbudgetedNested symbols) terminator kind mark.span stack) _ _ rest :=
    grouped.script known behind put
  rw [← token_script text] at given
  exact ⟨after, left', free,
    unbudgeted_token before.free left (text ▸ ne_script known) given⟩

/-- A script that cannot be put ends the sequence with an error at its mark. -/
theorem unbudgeted_refused {token : Token} {tail : List Token} {argument : Node}
    (known : Closing terminator) (free : c.pending = none) (left : c.tokens = token :: tail)
    (text : token.text = kind.token) (put : Script.put kind argument stack = .error cause) :
    unbudgeted symbols terminator limit consumed stack c =
      .error (.refused ⟨token.span, cause⟩) := by
  have refused : Reader.token symbols (unbudgetedNested symbols) terminator token stack
      (skip c token tail) = .error (.refused ⟨token.span, cause⟩) := by
    rw [token_script text]
    exact script_refused put
  rw [unbudgeted_eq]
  exact turn_error free left (text ▸ ne_script known) refused

end Reader

end FormulaMarkup

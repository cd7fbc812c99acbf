import FormulaMarkup.Formula.Parse
import FormulaMarkup.Proofs.Parsing.Agreement
import FormulaMarkup.Proofs.Parsing.Terminator
import Mathlib.Data.List.Basic

/-!
What readers have done where they succeed. Each reader of arguments is taken apart into the calls it
has made and the tokens it has taken, and so is a turn of a sequence. The readers of commands are
taken apart in the same way where their parts are listed.
-/
namespace FormulaMarkup.Reader

variable {α β : Type} {c after : Cursor}

/-! ## Rules -/

theorem bind_ok_iff {r : Reader α} {f : α → Reader β} {b : β} :
    (r >>= f) c = .ok (b, after) ↔ ∃ a mid, r c = .ok (a, mid) ∧ f a mid = .ok (b, after) := by
  constructor
  · intro given
    cases read : r c with
    | error failure =>
      rw [bind_error read] at given
      cases given
    | ok result =>
      obtain ⟨a, mid⟩ := result
      rw [bind_ok read] at given
      exact ⟨a, mid, rfl, given⟩
  · rintro ⟨a, mid, read, rest⟩
    rw [bind_ok read, rest]

theorem pure_ok_iff {a b : α} : (pure a : Reader α) c = .ok (b, after) ↔ a = b ∧ c = after := by
  constructor
  · rintro ⟨⟩
    exact ⟨rfl, rfl⟩
  · rintro ⟨rfl, rfl⟩
    rfl

theorem refuse_ne_ok {span : Span} {cause : Cause} {a : α} :
    (refuse span cause : Reader α) c ≠ .ok (a, after) := nofun

theorem refuseLast_ne_ok {cause : Cause} {a : α} :
    (lastSpan >>= fun span => (refuse span cause : Reader α)) c ≠ .ok (a, after) := nofun

theorem refuseNext_ne_ok {cause : Cause} {a : α} :
    (nextSpan >>= fun span => (refuse span cause : Reader α)) c ≠ .ok (a, after) := by
  intro given
  obtain ⟨span, mid, -, refused⟩ := bind_ok_iff.mp given
  exact refuse_ne_ok refused

/-! ## Readers of arguments -/

/-- A cursor behind its next token. -/
def skip (c : Cursor) (token : Token) (rest : List Token) : Cursor :=
  { c with tokens := rest, last := token.span }

theorem next?_ok {token : Option Token} (given : next? c = .ok (token, after)) :
    token = none ∧ c.tokens = [] ∧ after = c ∨
      ∃ next rest, token = some next ∧ c.tokens = next :: rest ∧ after = skip c next rest := by
  cases left : c.tokens with
  | nil =>
    rw [next?_nil left] at given
    cases given
    exact .inl ⟨rfl, rfl, rfl⟩
  | cons next rest =>
    rw [next?_cons left] at given
    cases given
    exact .inr ⟨next, rest, rfl, rfl, rfl⟩

variable {nested : Nested} {terminator : Option String}

theorem rawArgument_ok {text : String} (given : rawArgument terminator c = .ok (text, after)) :
    c.pending = none ∧ ∃ next rest, c.tokens = next :: rest ∧ text = next.text ∧
      after = skip c next rest ∧ some next.text ≠ terminator := by
  unfold rawArgument at given
  obtain ⟨_, _, ⟨⟩, given⟩ := bind_ok_iff.mp given
  split at given
  · exact absurd given refuseNext_ne_ok
  · rename_i free
    simp only [Bool.or_eq_true, not_or, Bool.not_eq_true, Option.isSome_eq_false_iff,
      Option.isNone_iff_eq_none] at free
    obtain ⟨token, mid, taken, given⟩ := bind_ok_iff.mp given
    rcases next?_ok taken with ⟨rfl, -, -⟩ | ⟨next, rest, rfl, left, rfl⟩
    · exact absurd given refuseNext_ne_ok
    · obtain ⟨rfl, rfl⟩ := pure_ok_iff.mp given
      refine ⟨free.1, next, rest, left, rfl, rfl, ?_⟩
      simpa [left] using free.2

theorem rawArgument_cons {token : Token} {rest : List Token}
    (free : c.pending = none) (left : c.tokens = token :: rest) (other : some token.text ≠ terminator) :
    rawArgument terminator c = .ok (token.text, skip c token rest) := by
  unfold rawArgument
  rw [bind_ok (get_ok c), if_neg (by simp [free, left, other]), bind_ok (next?_cons left)]
  rfl

theorem bracedText_ok {text : String} (given : bracedText c = .ok (text, after)) :
    after.tokens <:+ c.tokens ∧ after.pending = c.pending := by
  cases given
  exact ⟨List.drop_suffix _ _, rfl⟩

theorem fence?_ok {fence : Option String} (plain : nested.raw = rawArgument)
    (given : fence? nested terminator c = .ok (fence, after)) :
    c.pending = none ∧ after.pending = none ∧ after.tokens <:+ c.tokens := by
  unfold fence? at given
  obtain ⟨raw, mid, taken, given⟩ := bind_ok_iff.mp given
  rw [plain] at taken
  obtain ⟨free, next, rest, left, -, rfl, -⟩ := rawArgument_ok taken
  have behind : rest <:+ c.tokens := by
    rw [left]
    exact List.suffix_cons next rest
  dsimp only at given
  split at given
  · obtain ⟨text, last, braced, given⟩ := bind_ok_iff.mp given
    obtain ⟨-, rfl⟩ := pure_ok_iff.mp given
    obtain ⟨inside, same⟩ := bracedText_ok braced
    exact ⟨free, same.trans free, inside.trans behind⟩
  · obtain ⟨text, last, same, given⟩ := bind_ok_iff.mp given
    obtain ⟨-, rfl⟩ := pure_ok_iff.mp same
    obtain ⟨-, rfl⟩ := pure_ok_iff.mp given
    exact ⟨free, free, behind⟩

theorem optional_ok {nodes : List Node} (given : optional nested terminator c = .ok (nodes, after)) :
    c.pending = none ∧ c.tokens = [] ∧ nodes = [] ∧ after = c ∨
      (c.pending.isNone && c.tokens.isEmpty) = false ∧
        nested.sequence terminator .unbounded c = .ok (nodes, after) := by
  unfold optional at given
  obtain ⟨_, _, ⟨⟩, given⟩ := bind_ok_iff.mp given
  split at given
  · rename_i empty
    simp only [Bool.and_eq_true, Option.isNone_iff_eq_none, List.isEmpty_iff] at empty
    obtain ⟨rfl, rfl⟩ := pure_ok_iff.mp given
    exact .inl ⟨empty.1, empty.2, rfl, rfl⟩
  · rename_i more
    exact .inr ⟨eq_false_of_ne_true more, given⟩

/-- The nodes of a group without the one that closes it. -/
def stripped (closing : String) (nodes : List Node) : List Node :=
  if nodes.getLast?.any (·.is closing) then nodes.dropLast else nodes

theorem group_ok {closing : String} {nodes : List Node}
    (given : group nested closing c = .ok (nodes, after)) :
    ∃ all, optional nested (some closing) c = .ok (all, after) ∧ nodes = stripped closing all := by
  unfold group at given
  obtain ⟨all, mid, read, given⟩ := bind_ok_iff.mp given
  refine ⟨all, ?_⟩
  unfold stripped
  split at given
  · rename_i closed
    obtain ⟨rfl, rfl⟩ := pure_ok_iff.mp given
    exact ⟨read, (if_pos closed).symm⟩
  · rename_i closed
    obtain ⟨rfl, rfl⟩ := pure_ok_iff.mp given
    exact ⟨read, (if_neg closed).symm⟩

/-- All that follows up to the end of a sequence, with the node that ends it if there is one. -/
structure Parted (terminator : Option String) (all nodes : List Node) (marker : Option Node) : Prop where
  whole : all = nodes ++ marker.toList
  ends : ∀ node ∈ marker, some node.token = terminator
  open' : marker = none → ∀ node ∈ nodes.getLast?, some node.token ≠ terminator

theorem remainder_ok {nodes : List Node} {marker : Option Node}
    (given : remainder nested terminator c = .ok ((nodes, marker), after)) :
    ∃ all, optional nested terminator c = .ok (all, after) ∧
      Parted terminator all nodes marker := by
  unfold remainder at given
  obtain ⟨all, mid, read, given⟩ := bind_ok_iff.mp given
  cases terminator with
  | none =>
    obtain ⟨⟨⟩, rfl⟩ := pure_ok_iff.mp given
    exact ⟨_, read, (List.append_nil _).symm, nofun, fun _ _ _ => nofun⟩
  | some closing =>
    cases found : all.getLast? with
    | none =>
      rw [found] at given
      obtain ⟨⟨⟩, rfl⟩ := pure_ok_iff.mp given
      refine ⟨_, read, (List.append_nil _).symm, nofun, ?_⟩
      rintro - node last
      rw [found] at last
      cases last
    | some last =>
      rw [found] at given
      dsimp only at given
      split at given
      · rename_i closes
        obtain ⟨⟨⟩, rfl⟩ := pure_ok_iff.mp given
        refine ⟨all, read, (List.dropLast_append_getLast? _ found).symm, ?_, nofun⟩
        rintro _ ⟨⟩
        rw [beq_iff_eq.mp closes]
      · rename_i other
        obtain ⟨⟨⟩, rfl⟩ := pure_ok_iff.mp given
        refine ⟨_, read, (List.append_nil _).symm, nofun, ?_⟩
        rintro - node mem same
        rw [found] at mem
        cases mem
        exact other (beq_iff_eq.mpr (Option.some.inj same))

theorem argument_ok {node : Node} (given : argument nested terminator c = .ok (node, after)) :
    ∃ nodes, arguments nested terminator 1 c = .ok (nodes, after) ∧ node = Node.collapse nodes := by
  unfold argument at given
  obtain ⟨nodes, mid, read, given⟩ := bind_ok_iff.mp given
  obtain ⟨rfl, rfl⟩ := pure_ok_iff.mp given
  exact ⟨nodes, read, rfl⟩

/-! ## Turns of a sequence -/

/-- The readers that the tokens of a sequence are handed. -/
def nestedAt (symbols : SymbolTable) (budget : Nat) : Nested where
  raw := rawArgument
  sequence := fun terminator limit => sequence symbols terminator limit budget false []

/-- How a sequence that has been read ended: without a limit, or full and with the token that ends
the sequence around it owed, or full and open. -/
theorem close_ok {limit : Limit} {consumed : Bool} {stack nodes : List Node}
    (given : Reader.close terminator limit consumed stack c = .ok (nodes, after)) :
    limit = .unbounded ∧ nodes = stack.reverse ∧ after = c ∨
    (∃ count marker rest, limit = .nodes count ∧ stack = marker :: rest ∧
      marker.marks terminator = true ∧ count ≤ rest.length ∧ nodes = rest.reverse ∧
      after = { c with pending := some marker }) ∨
    ∃ count, limit = .nodes count ∧ (∀ node ∈ stack.head?, node.marks terminator = false) ∧
      count ≤ stack.length ∧ nodes = stack.reverse ∧ after = c := by
  unfold Reader.close at given
  split at given
  · exact absurd given refuseNext_ne_ok
  · cases limit with
    | unbounded =>
      obtain ⟨rfl, rfl⟩ := pure_ok_iff.mp given
      exact .inl ⟨rfl, rfl, rfl⟩
    | nodes count =>
      dsimp only at given
      cases found : stack.head?.filter fun node => node.isLeaf && some node.token == terminator with
      | some marker =>
        rw [found] at given
        dsimp only at given
        obtain ⟨first, marks⟩ := Option.filter_eq_some_iff.mp found
        obtain ⟨rest, rfl⟩ : ∃ rest, stack = marker :: rest := by
          cases stack with
          | nil => cases first
          | cons head rest =>
            cases first
            exact ⟨rest, rfl⟩
        split at given
        · rename_i full
          obtain ⟨-, mid, ⟨⟩, given⟩ := bind_ok_iff.mp given
          obtain ⟨rfl, rfl⟩ := pure_ok_iff.mp given
          exact .inr (.inl ⟨count, marker, rest, rfl, rfl, marks, Nat.le_of_lt_succ full, rfl, rfl⟩)
        · exact absurd given refuseLast_ne_ok
      | none =>
        rw [found] at given
        dsimp only at given
        split at given
        · exact absurd given refuseLast_ne_ok
        · rename_i full
          obtain ⟨rfl, rfl⟩ := pure_ok_iff.mp given
          refine .inr (.inr ⟨count, rfl, ?_, Nat.le_of_not_lt full, rfl, rfl⟩)
          intro node first
          have unmarked := Option.filter_eq_none_iff.mp found node first
          exact eq_false_of_ne_true unmarked

theorem marker_ok {text : String} {node : Node} (given : marker text c = .ok (node, after)) :
    ∃ delimiter, node = { Node.leaf text with delimiter } ∧
      (text ≠ "\\right" ∧ after = c ∨ text = "\\right" ∧ c.tokens = [] ∧ after = c ∨
        ∃ next rest, text = "\\right" ∧ c.tokens = next :: rest ∧ after = skip c next rest) := by
  unfold marker at given
  split at given
  · rename_i right
    obtain ⟨token, mid, taken, given⟩ := bind_ok_iff.mp given
    obtain ⟨rfl, rfl⟩ := pure_ok_iff.mp given
    refine ⟨_, rfl, .inr ?_⟩
    rcases next?_ok taken with ⟨-, done, rfl⟩ | ⟨next, rest, -, left, rfl⟩
    · exact .inl ⟨beq_iff_eq.mp right, done, rfl⟩
    · exact .inr ⟨next, rest, beq_iff_eq.mp right, left, rfl⟩
  · rename_i other
    obtain ⟨rfl, rfl⟩ := pure_ok_iff.mp given
    refine ⟨none, rfl, .inl ⟨fun right => other (beq_iff_eq.mpr right), rfl⟩⟩

/-- What a sequence that has been read began with: the token that was owed to it, the end of the
source, its own terminator, or another token, behind which it was at its end or went on. -/
inductive Turn (symbols : SymbolTable) (terminator : Option String) (limit : Limit) (budget : Nat)
    (consumed : Bool) (stack : List Node) (c : Cursor) (nodes : List Node) (after : Cursor) : Prop
  | owed {marker : Node} (owes : c.pending = some marker) (unbounded : limit = .unbounded)
      (made : nodes = (marker :: stack).reverse) (left : after = { c with pending := none })
  | ended (free : c.pending = none) (done : c.tokens = [])
      (closed : Reader.close terminator limit consumed stack c = .ok (nodes, after))
  | closed {next : Token} {rest : List Token} {node : Node} (free : c.pending = none)
      (left : c.tokens = next :: rest) (closes : some next.text = terminator)
      (unbounded : limit = .unbounded) (marked : marker next.text (skip c next rest) = .ok (node, after))
      (made : nodes = (node :: stack).reverse)
  | last {next : Token} {rest : List Token} {progress : Progress} {mid : Cursor}
      (free : c.pending = none) (left : c.tokens = next :: rest) (other : some next.text ≠ terminator)
      (read : Reader.token symbols (nestedAt symbols budget) terminator next stack (skip c next rest) =
        .ok (progress, mid))
      (full : progress.finished || limit.reachedBy progress.stack.length)
      (closed : Reader.close terminator limit true progress.stack mid = .ok (nodes, after))
  | more {next : Token} {rest : List Token} {progress : Progress} {mid : Cursor}
      (free : c.pending = none) (left : c.tokens = next :: rest) (other : some next.text ≠ terminator)
      (read : Reader.token symbols (nestedAt symbols budget) terminator next stack (skip c next rest) =
        .ok (progress, mid))
      (space : (progress.finished || limit.reachedBy progress.stack.length) = false)
      (again : sequence symbols terminator limit budget true progress.stack mid = .ok (nodes, after))

theorem sequence_ok {symbols : SymbolTable} {limit : Limit} {budget : Nat} {consumed : Bool}
    {stack nodes : List Node}
    (given : sequence symbols terminator limit (budget + 1) consumed stack c = .ok (nodes, after)) :
    Turn symbols terminator limit budget consumed stack c nodes after := by
  unfold sequence turn at given
  obtain ⟨owed, mid, ⟨⟩, given⟩ := bind_ok_iff.mp given
  cases owes : c.pending with
  | some marker =>
    rw [owes] at given
    dsimp only at given
    split at given
    · rename_i unbounded
      subst unbounded
      rcases close_ok given with ⟨-, made, left⟩ | ⟨_, _, _, absurd, -⟩ | ⟨_, absurd, -⟩
      · exact .owed owes rfl made left
      · cases absurd
      · cases absurd
    · exact absurd given refuseLast_ne_ok
  | none =>
    have free : ({ c with pending := none } : Cursor) = c := by rw [← owes]
    rw [owes, free] at given
    dsimp only at given
    obtain ⟨token, mid, taken, goesOn⟩ := bind_ok_iff.mp given
    rcases next?_ok taken with ⟨rfl, done, rfl⟩ | ⟨next, rest, rfl, left, rfl⟩
    · exact .ended owes done goesOn
    · dsimp only at goesOn
      split at goesOn
      · rename_i closes
        split at goesOn
        · rename_i unbounded
          subst unbounded
          obtain ⟨node, last, marked, closed⟩ := bind_ok_iff.mp goesOn
          rcases close_ok closed with ⟨-, made, rfl⟩ | ⟨_, _, _, absurd, -⟩ | ⟨_, absurd, -⟩
          · exact .closed owes left closes rfl marked made
          · cases absurd
          · cases absurd
        · exact absurd goesOn refuse_ne_ok
      · rename_i other
        obtain ⟨progress, mid, read, behind⟩ := bind_ok_iff.mp goesOn
        split at behind
        · rename_i full
          exact .last owes left other read full behind
        · rename_i space
          exact .more owes left other read (eq_false_of_ne_true space) behind

end FormulaMarkup.Reader

namespace FormulaMarkup.Formula

theorem ofTokens?_ok {symbols : SymbolTable} {tokens : List Token} {stop : Nat} {nodes : List Node}
    (read : ofTokens? symbols tokens stop = .ok nodes) :
    tokens = [] ∧ nodes = [] ∨ ∃ after,
      Reader.sequence symbols none .unbounded (tokens.length + 1) false []
        { tokens, last := ⟨0, 0⟩, stop } = .ok (nodes, after) := by
  unfold ofTokens? at read
  dsimp only at read
  split at read
  · rename_i empty
    cases read
    exact .inl ⟨List.isEmpty_iff.mp empty, rfl⟩
  · rw [StateT.run] at read
    cases given : Reader.sequence symbols none .unbounded (tokens.length + 1) false []
        { tokens, last := ⟨0, 0⟩, stop } with
    | error failure =>
      rw [given] at read
      cases read
    | ok result =>
      obtain ⟨all, after⟩ := result
      rw [given] at read
      cases read
      exact .inr ⟨after, rfl⟩

end FormulaMarkup.Formula

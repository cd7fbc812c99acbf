import FormulaMarkup.Proofs.Parsing.Enclosed

/-!
Arguments that are one node each. Words that are one node wherever a sequence is read are that node as an
argument, several of them are as many arguments, and words that are leaves are such a node in braces. Main
statements: a list of arguments, a group of leaves, and a source that its first token reads.
-/
namespace FormulaMarkup.Reader

open Wait

variable {symbols : SymbolTable} {terminator : Option String} {limit : Limit} {consumed : Bool}
  {stack nodes : List Node} {c : Cursor} {words : List String} {node : Node} {rest : List Token}

/-! ## Arguments -/

/-- A full sequence ends with a node that is not the leaf for its terminator. -/
theorem close_full {count : Nat} (full : count ≤ (node :: stack).length)
    (apart : (node.isLeaf && some node.token == terminator) = false) :
    Reader.close terminator (.nodes count) true (node :: stack) c = .ok ((node :: stack).reverse, c) := by
  unfold Reader.close
  simp only [Bool.not_true, Bool.false_eq_true, if_false, List.head?_cons, Option.filter_some, apart,
    Nat.not_lt.mpr full]
  rfl

/-- Where no budget is kept, a node is put on the stack as well. -/
theorem OneNode.step (one : OneNode symbols words node) (limit : Limit) (consumed : Bool) (stack : List Node)
    (known : Closing terminator) (before : Before c words rest) :
    ∃ after, after.tokens = rest ∧ after.pending = none ∧
      unbudgeted symbols terminator limit consumed stack c =
        (if limit.reachedBy (stack.length + 1) then Reader.close terminator limit true (node :: stack)
          else unbudgeted symbols terminator limit true (node :: stack)) after := by
  obtain ⟨after, left, free, same⟩ := one terminator limit consumed stack c rest (c.tokens.length + 1)
    (rest.length + 1) known before (Nat.lt_succ_self _) (Nat.lt_succ_self _)
  refine ⟨after, left, free, ?_⟩
  rw [← (sequence_same symbols _ terminator limit consumed stack c (Nat.lt_succ_self _)).1, same]
  split
  · rfl
  · exact (sequence_same symbols _ terminator limit true (node :: stack) after (left ▸ Nat.lt_succ_self _)).1

/-- Words that are one node are that node as an argument, unless it ends the sequence around. -/
theorem OneNode.argument (one : OneNode symbols words node) (known : Closing terminator)
    (apart : (node.isLeaf && some node.token == terminator) = false) (before : Before c words rest) :
    Gives (Reader.argument (unbudgetedNested symbols) terminator) c node rest := by
  obtain ⟨after, left, free, same⟩ := one.step (.nodes 1) false [] known before
  rw [if_pos (by decide), close_full (by simp) apart] at same
  exact Gives.step same (.pure left free)

/-- Words that are nodes, one behind the other. -/
inductive OneEach (symbols : SymbolTable) : List String → List Node → Prop
  | nil : OneEach symbols [] []
  | cons {words more : List String} {node : Node} {nodes : List Node} (one : OneNode symbols words node)
      (rest : OneEach symbols more nodes) : OneEach symbols (words ++ more) (node :: nodes)

/-- A sequence goes on until it is full. -/
theorem OneEach.fill (each : OneEach symbols words nodes) (some' : nodes ≠ [])
    (apart : ∀ node ∈ nodes, (node.isLeaf && some node.token == terminator) = false) (consumed : Bool)
    (stack : List Node) (known : Closing terminator) (before : Before c words rest) :
    Gives (unbudgeted symbols terminator (.nodes (stack.length + nodes.length)) consumed stack) c
      (stack.reverse ++ nodes) rest := by
  induction each generalizing stack consumed c with
  | nil => contradiction
  | @cons words more node nodes one others ih =>
    obtain ⟨first', others'⟩ := List.forall_mem_cons.mp apart
    obtain ⟨tokens, texts, first⟩ := before.split
    obtain ⟨after, left, free, same⟩ :=
      one.step (.nodes (stack.length + (nodes.length + 1))) consumed stack known first
    have reverse : stack.reverse ++ node :: nodes = (node :: stack).reverse ++ nodes := by simp
    rw [List.length_cons, reverse]
    refine .of_eq same ?_
    cases nodes with
    | nil =>
      cases others
      obtain rfl := List.map_eq_nil_iff.mp texts
      rw [if_pos (by simp [Limit.reachedBy])]
      exact ⟨after, by rw [close_full (by simp) first', List.append_nil], left, free⟩
    | cons next nodes =>
      rw [if_neg (by simp [Limit.reachedBy])]
      have goesOn := ih (List.cons_ne_nil _ _) others' true (node :: stack) ⟨free, tokens, texts, left⟩
      rw [List.length_cons, Nat.succ_add_eq_add_succ] at goesOn
      exact goesOn

/-- Such words are as many arguments, unless one of them ends the sequence around. -/
theorem OneEach.arguments (each : OneEach symbols words nodes) (some' : nodes ≠ [])
    (apart : ∀ node ∈ nodes, (node.isLeaf && some node.token == terminator) = false)
    (known : Closing terminator) (before : Before c words rest) :
    Gives (Reader.arguments (unbudgetedNested symbols) terminator nodes.length) c nodes rest := by
  have filled := each.fill some' apart false [] known before
  rw [List.length_nil, Nat.zero_add] at filled
  exact filled

/-! ## Groups of leaves -/

/-- In braces, words are the node that reading them gives. -/
theorem Advances.oneNode (inside : Advances symbols words [] nodes.reverse) :
    OneNode symbols (inBraces words) (.braces nodes) := by
  apply oneNode_braces
  intro c rest before
  have more := before.some_to_read (by simp)
  have enough : c.tokens.length < c.tokens.length + 1 := Nat.lt_succ_self _
  have read : Gives (optional (nestedWithin symbols (c.tokens.length + 1)) (some Word.closeBrace)) c
      (nodes ++ [.leaf Word.closeBrace]) rest :=
    gives_optional (by decide) inside before enough fun d before => gives_leaf (by decide) before
  have same : optional (unbudgetedNested symbols) (some Word.closeBrace) c =
      optional (nestedWithin symbols (c.tokens.length + 1)) (some Word.closeBrace) c := by
    rw [optional_eq more, optional_eq more]
    exact (sequence_same symbols _ _ .unbounded false [] c enough).1.symm
  have given := gives_stripped (.of_eq same read)
  rwa [stripped_concat] at given

theorem advances_leaves (leaves : ∀ word ∈ words, IsLeafWord word) :
    Advances symbols words [] (words.map Node.leaf).reverse := by
  induction words with
  | nil => exact .nil
  | cons word words ih =>
    obtain ⟨leaf, leaves⟩ := List.forall_mem_cons.mp leaves
    exact .cons (.leaf leaf) (ih leaves)

/-! ## Sources -/

section First

variable {token : Token} {tokens : List Token} {stop : Nat}

/-- A cursor behind the first token of a source. -/
def behindFirst (token : Token) (tokens : List Token) (stop : Nat) : Cursor :=
  { tokens, last := token.span, stop }

theorem before_behindFirst (texts : tokens.map (·.text) = words) :
    Before (behindFirst token tokens stop) words [] :=
  ⟨rfl, tokens, texts, (List.append_nil _).symm⟩

/-- A source of which the first token takes all that follows. -/
theorem ofTokens?_first {after : Cursor} (read : Reader.token symbols (unbudgetedNested symbols) none token []
    (behindFirst token tokens stop) = .ok (⟨nodes, false⟩, after)) (done : after.tokens = [])
    (free : after.pending = none) : Formula.ofTokens? symbols (token :: tokens) stop = .ok nodes.reverse := by
  have whole : unbudgeted symbols none .unbounded false [] { tokens := token :: tokens, last := ⟨0, 0⟩, stop } =
      unbudgeted symbols none .unbounded true nodes after :=
    unbudgeted_token rfl rfl (by simp) read
  rw [Formula.ofTokens?_eq, Formula.unbudgetedTokens?, if_neg (by simp), whole, unbudgeted_end free done]
  rfl

/-- A source that is wrong at its first token. -/
theorem ofTokens?_failure {failure : Failure} (read : Reader.token symbols (unbudgetedNested symbols) none token []
    (behindFirst token tokens stop) = .error failure) :
    Formula.ofTokens? symbols (token :: tokens) stop = .error failure := by
  have whole : unbudgeted symbols none .unbounded false [] { tokens := token :: tokens, last := ⟨0, 0⟩, stop } =
      .error failure := by
    rw [unbudgeted_eq]
    exact turn_error rfl rfl (by simp) read
  rw [Formula.ofTokens?_eq, Formula.unbudgetedTokens?, if_neg (by simp), whole]
  rfl

end First

end FormulaMarkup.Reader

import FormulaMarkup.Proofs.Parsing.Agreement
import FormulaMarkup.Proofs.Parsing.Spelling
import FormulaMarkup.Symbol.Known

/-!
Parsing what is spelled. Reading words puts their nodes on the stack of the sequence around them,
whatever that sequence ends at, whatever is on the stack and whatever follows. Main statement:
parsing the source of a list of nodes gives the list.
-/
namespace FormulaMarkup

namespace Reader

/-- A reader gives a value, leaves these tokens and owes nothing. -/
def Gives {α : Type} (r : Reader α) (c : Cursor) (value : α) (rest : List Token) : Prop :=
  ∃ after, r c = .ok (value, after) ∧ after.tokens = rest ∧ after.pending = none

/-- A cursor before words and further tokens, with nothing owed. -/
structure Before (c : Cursor) (words : List String) (rest : List Token) : Prop where
  free : c.pending = none
  words : ∃ tokens, tokens.map (·.text) = words ∧ c.tokens = tokens ++ rest

section Rules

variable {α β : Type} {c : Cursor} {rest : List Token}

theorem Gives.pure {value : α} (left : c.tokens = rest) (free : c.pending = none) :
    Gives (Pure.pure value) c value rest :=
  ⟨c, rfl, left, free⟩

theorem Gives.bind {r : Reader α} {f : α → Reader β} {value : α} {result : β} {mid : List Token}
    (first : Gives r c value mid)
    (andThen : ∀ d, d.tokens = mid → d.pending = none → Gives (f value) d result rest) :
    Gives (r >>= f) c result rest := by
  obtain ⟨d, given, left, free⟩ := first
  obtain ⟨after, given', ends⟩ := andThen d left free
  exact ⟨after, by rw [bind_ok given, given'], ends⟩

/-- A first reader of which it is known what it gives. -/
theorem Gives.step {r : Reader α} {f : α → Reader β} {value : α} {result : β} {d : Cursor}
    (given : r c = .ok (value, d)) (andThen : Gives (f value) d result rest) :
    Gives (r >>= f) c result rest := by
  obtain ⟨after, given', ends⟩ := andThen
  exact ⟨after, by rw [bind_ok given, given'], ends⟩

end Rules

theorem Before.next {c : Cursor} {word : String} {words : List String} {rest : List Token}
    (before : Before c (word :: words) rest) :
    ∃ token tail, c.tokens = token :: tail ∧ token.text = word ∧
      Before { c with tokens := tail, last := token.span } words rest := by
  obtain ⟨free, tokens, texts, split⟩ := before
  cases tokens with
  | nil => cases texts
  | cons token tokens =>
    rw [List.map_cons] at texts
    obtain ⟨word, texts⟩ := List.cons.inj texts
    exact ⟨token, tokens ++ rest, split, word, free, tokens, texts, rfl⟩

theorem Before.rest_le {c : Cursor} {words : List String} {rest : List Token}
    (before : Before c words rest) : rest.length ≤ c.tokens.length := by
  obtain ⟨-, tokens, -, split⟩ := before
  rw [split, List.length_append]
  omega

theorem Before.nextIs {c : Cursor} {word : String} {words : List String} {rest : List Token}
    (before : Before c (word :: words) rest) (text : String) :
    Reader.nextIs text c = .ok (word == text, c) := by
  obtain ⟨token, tail, left, rfl, -⟩ := before.next
  rw [nextIs_ok, left]
  rfl

theorem Before.split {c : Cursor} {front back : List String} {rest : List Token}
    (before : Before c (front ++ back) rest) :
    ∃ tokens, tokens.map (·.text) = back ∧ Before c front (tokens ++ rest) := by
  obtain ⟨free, tokens, texts, split⟩ := before
  obtain ⟨first, second, rfl, rfl, rfl⟩ := List.map_eq_append_iff.mp texts
  exact ⟨second, rfl, free, first, rfl, by rw [split, List.append_assoc]⟩

theorem Before.some_to_read {c : Cursor} {words : List String} {rest : List Token}
    (before : Before c words rest) (some' : words ≠ []) : (c.pending.isNone && c.tokens.isEmpty) = false := by
  obtain ⟨-, tokens, rfl, split⟩ := before
  cases tokens with
  | nil => exact absurd rfl some'
  | cons first front => simp [split]

/-- The reader of nested sequences within a budget. -/
def nestedWithin (symbols : SymbolTable) (budget : Nat) : Nested where
  raw := rawArgument
  sequence := fun terminator limit => sequence symbols terminator limit budget false []

/-- The terminators of the sequences that are spelled. -/
def Ending (terminator : Option String) : Prop :=
  terminator ∈ [none, some "\x7d", some "]", some "\\right", some "\\end\x7bmatrix\x7d"]

instance (terminator : Option String) : Decidable (Ending terminator) :=
  inferInstanceAs (Decidable (_ ∈ _))

variable {symbols : SymbolTable}

/-- Reading words changes the top of the stack, in every sequence. -/
def Advances (symbols : SymbolTable) (words : List String) (top top' : List Node) : Prop :=
  ∀ terminator stack consumed budget c rest, Ending terminator → Before c words rest →
    c.tokens.length < budget →
    ∃ budget' after, after.tokens = rest ∧ after.pending = none ∧ rest.length < budget' ∧
      sequence symbols terminator .unbounded budget consumed (top ++ stack) c =
        sequence symbols terminator .unbounded budget' (consumed || !words.isEmpty) (top' ++ stack)
          after

theorem Advances.nil {top : List Node} : Advances symbols [] top top := by
  intro terminator stack consumed budget c rest _ before enough
  obtain ⟨free, tokens, texts, left⟩ := before
  obtain rfl := List.map_eq_nil_iff.mp texts
  rw [List.nil_append] at left
  exact ⟨budget, c, left, free, left ▸ enough, by simp⟩

theorem Advances.append {front back : List String} {top mid top' : List Node}
    (first : Advances symbols front top mid) (second : Advances symbols back mid top') :
    Advances symbols (front ++ back) top top' := by
  intro terminator stack consumed budget c rest ending before enough
  obtain ⟨tokens, texts, before⟩ := before.split
  obtain ⟨budget', d, left, free, enough', same⟩ :=
    first terminator stack consumed budget c (tokens ++ rest) ending before enough
  have next : Before d back rest := ⟨free, tokens, texts, left⟩
  obtain ⟨budget'', after, left', free', enough'', same'⟩ :=
    second terminator stack _ budget' d rest ending next (left ▸ enough')
  refine ⟨budget'', after, left', free', enough'', ?_⟩
  rw [same, same']
  cases front <;> cases back <;> simp

/-- What stands below the nodes that are read makes no difference. -/
theorem Advances.above {words : List String} {top top' : List Node}
    (advances : Advances symbols words top top') (low : List Node) :
    Advances symbols words (top ++ low) (top' ++ low) := by
  intro terminator stack consumed budget c rest ending before enough
  simp only [List.append_assoc]
  exact advances terminator (low ++ stack) consumed budget c rest ending before enough

/-! ## Turns -/

theorem takePending_none {c : Cursor} (free : c.pending = none) :
    takePending c = .ok (none, c) := by
  obtain ⟨tokens, last, stop, pending⟩ := c
  obtain rfl : pending = none := free
  rfl

variable {terminator : Option String} {limit : Limit} {budget : Nat} {consumed : Bool}
  {stack stack' : List Node} {c : Cursor} {rest : List Token}

/-- A token that ends nothing is read by its own reader; then the sequence is full or goes on. -/
theorem turn_token {step : Token → List Node → Reader Progress} {again : List Node → Reader (List Node)}
    {token : Token} {tail : List Token} {progress : Progress} {after : Cursor}
    (free : c.pending = none) (left : c.tokens = token :: tail) (other : some token.text ≠ terminator)
    (given : step token stack { c with tokens := tail, last := token.span } = .ok (progress, after)) :
    turn terminator limit step again consumed stack c =
      (if progress.finished || limit.reachedBy progress.stack.length then
        Reader.close terminator limit true progress.stack else again progress.stack) after := by
  rw [turn, bind_ok (takePending_none free)]
  dsimp only
  rw [bind_ok (next?_cons left)]
  dsimp only
  rw [if_neg other, bind_ok given]

/-- A token that is refused ends the sequence. -/
theorem turn_error {step : Token → List Node → Reader Progress} {again : List Node → Reader (List Node)}
    {token : Token} {tail : List Token} {failure : Failure} (free : c.pending = none)
    (left : c.tokens = token :: tail) (other : some token.text ≠ terminator)
    (refused : step token stack { c with tokens := tail, last := token.span } = .error failure) :
    turn terminator limit step again consumed stack c = .error failure := by
  rw [turn, bind_ok (takePending_none free)]
  dsimp only
  rw [bind_ok (next?_cons left)]
  dsimp only
  rw [if_neg other, bind_error refused]

/-- In a sequence with a budget. -/
theorem sequence_token {token : Token} {tail : List Token} (free : c.pending = none)
    (left : c.tokens = token :: tail) (other : some token.text ≠ terminator)
    (reads : Gives (Reader.token symbols (nestedWithin symbols budget) terminator token stack)
      { c with tokens := tail, last := token.span } ⟨stack', false⟩ rest) :
    ∃ after, after.tokens = rest ∧ after.pending = none ∧
      sequence symbols terminator limit (budget + 1) consumed stack c =
        (if limit.reachedBy stack'.length then Reader.close terminator limit true stack'
          else sequence symbols terminator limit budget true stack') after := by
  obtain ⟨after, given, ends⟩ := reads
  refine ⟨after, ends.1, ends.2, ?_⟩
  unfold nestedWithin at given
  rw [sequence, turn_token free left other given]
  rfl

/-- A sequence without a limit ends at its terminator, and keeps a leaf for it. -/
theorem sequence_terminator {token : Token} {tail : List Token} {node : Node}
    (free : c.pending = none) (left : c.tokens = token :: tail)
    (closes : some token.text = terminator)
    (marks : Gives (marker token.text) { c with tokens := tail, last := token.span } node rest) :
    Gives (sequence symbols terminator .unbounded (budget + 1) consumed stack) c
      (stack.reverse ++ [node]) rest := by
  obtain ⟨after, given, ends⟩ := marks
  refine ⟨after, ?_, ends⟩
  rw [sequence, turn, bind_ok (takePending_none free)]
  dsimp only
  rw [bind_ok (next?_cons left)]
  dsimp only
  rw [if_pos closes, if_pos rfl, bind_ok given, ← List.reverse_cons]
  rfl

/-- A token that starts no terminator, and whose reader changes the top of the stack. -/
theorem Advances.ofToken {word : String} {words : List String} {top top' : List Node}
    (starts : ¬ Ending (some word))
    (reads : ∀ terminator stack token budget c rest, Ending terminator → token.text = word →
      Before c words rest → c.tokens.length < budget →
      Gives (Reader.token symbols (nestedWithin symbols budget) terminator token (top ++ stack)) c
        ⟨top' ++ stack, false⟩ rest) :
    Advances symbols (word :: words) top top' := by
  intro terminator stack consumed budget c rest ending before enough
  obtain ⟨token, tail, left, text, before'⟩ := before.next
  obtain ⟨tokens, -, split⟩ := before'.words
  dsimp only at split
  rw [left, List.length_cons] at enough
  obtain ⟨budget, rfl⟩ : ∃ n, budget = n + 1 := ⟨budget - 1, by omega⟩
  have read := reads terminator stack token budget _ rest ending text before' (by simpa using enough)
  obtain ⟨after, left', free', same⟩ :=
    sequence_token before.free left (fun same => starts (text ▸ same ▸ ending)) read
  refine ⟨budget, after, left', free', ?_, ?_⟩
  · rw [split, List.length_append] at enough
    omega
  · rw [same]
    simp [Limit.reachedBy]

theorem Gives.of_eq {α : Type} {r s : Reader α} {c d : Cursor} {value : α} (same : r c = s d)
    (gives : Gives s d value rest) : Gives r c value rest := by
  obtain ⟨after, given, ends⟩ := gives
  exact ⟨after, same.trans given, ends⟩

/-! ## What is nested -/

/-- A sequence up to its terminator is read with the leaf for it. -/
theorem gives_optional {closing : String} {words closingWords : List String} {inner : List Node}
    {node : Node} (ending : Ending (some closing)) (inside : Advances symbols words [] inner.reverse)
    (before : Before c (words ++ closing :: closingWords) rest) (enough : c.tokens.length < budget)
    (marks : ∀ d, Before d closingWords rest → Gives (marker closing) d node rest) :
    Gives (optional (nestedWithin symbols budget) (some closing)) c (inner ++ [node]) rest := by
  obtain ⟨tokens, texts, before'⟩ := before.split
  obtain ⟨budget', d, left, free, enough', same⟩ :=
    inside (some closing) [] false budget c (tokens ++ rest) ending before' enough
  have next : Before d (closing :: closingWords) rest := ⟨free, tokens, texts, left⟩
  obtain ⟨token, tail, left', text, behind⟩ := next.next
  obtain ⟨budget', rfl⟩ : ∃ n, budget' = n + 1 := ⟨budget' - 1, by omega⟩
  unfold optional
  refine .step (get_ok c) ?_
  rw [if_neg (by simp [before.some_to_read])]
  refine .of_eq same ?_
  rw [List.append_nil]
  have ends : Gives (sequence symbols (some closing) .unbounded (budget' + 1)
      (false || !words.isEmpty) inner.reverse) d (inner.reverse.reverse ++ [node]) rest :=
    sequence_terminator free left' (by rw [text]) (text ▸ marks _ behind)
  rwa [List.reverse_reverse] at ends

theorem gives_leaf {word : String} (plain : word ≠ "\\right") (before : Before c [] rest) :
    Gives (marker word) c (.leaf word) rest := by
  obtain ⟨tokens, texts, left⟩ := before.words
  obtain rfl := List.map_eq_nil_iff.mp texts
  unfold marker
  rw [if_neg (by simpa using plain)]
  exact .pure left before.free

theorem gives_group {closing : String} {words : List String} {inner : List Node}
    (ending : Ending (some closing)) (plain : closing ≠ "\\right")
    (inside : Advances symbols words [] inner.reverse)
    (before : Before c (words ++ [closing]) rest) (enough : c.tokens.length < budget) :
    Gives (group (nestedWithin symbols budget) closing) c inner rest := by
  unfold group
  refine .bind (gives_optional ending inside before enough
    fun d before => gives_leaf plain before) ?_
  · intro d left free
    simp only [List.getLast?_append, List.getLast?_singleton, Option.some_or, Option.any_some,
      Node.is, Node.leaf, beq_self_eq_true, if_true, List.dropLast_concat]
    exact .pure left free

theorem token_openBrace {nested : Nested} {token : Token} (opens : token.text = Word.openBrace) :
    Reader.token symbols nested terminator token stack =
      group nested Word.closeBrace >>= fun nodes => pure ⟨.braces nodes :: stack, false⟩ := by
  unfold Reader.token
  rw [opens]
  rfl

/-- A group in braces puts a node on the stack. -/
theorem gives_braces {token : Token} {words : List String} {inner : List Node}
    (opens : token.text = Word.openBrace) (inside : Advances symbols words [] inner.reverse)
    (before : Before c (words ++ [Word.closeBrace]) rest) (enough : c.tokens.length < budget) :
    Gives (Reader.token symbols (nestedWithin symbols budget) terminator token stack) c
      ⟨.braces inner :: stack, false⟩ rest := by
  rw [token_openBrace opens]
  refine .bind (gives_group (by decide) (by decide) inside before enough) ?_
  intro d left free
  exact .pure left free

/-- A group in braces, read by a sequence with a limit. -/
theorem sequence_braces (limit : Limit) (consumed : Bool) (stack : List Node) {words : List String}
    {inner : List Node} (ending : Ending terminator)
    (inside : Advances symbols words [] inner.reverse)
    (before : Before c (inBraces words) rest) (enough : c.tokens.length < budget) :
    ∃ budget' after, after.tokens = rest ∧ after.pending = none ∧ rest.length < budget' ∧
      sequence symbols terminator limit budget consumed stack c =
        (if limit.reachedBy (stack.length + 1) then
            Reader.close terminator limit true (.braces inner :: stack)
          else sequence symbols terminator limit budget' true (.braces inner :: stack)) after := by
  obtain ⟨brace, tail, left, text, before'⟩ := Before.next before
  obtain ⟨tokens, -, split⟩ := before'.words
  dsimp only at split
  rw [left, List.length_cons] at enough
  obtain ⟨budget, rfl⟩ : ∃ n, budget = n + 1 := ⟨budget - 1, by omega⟩
  have other : some brace.text ≠ terminator := by
    rintro rfl
    rw [text] at ending
    exact absurd ending (by decide)
  obtain ⟨after, left', free', same⟩ := sequence_token before.free left other
    (gives_braces text inside before' (by simpa using enough))
  refine ⟨budget, after, left', free', ?_, same⟩
  rw [split, List.length_append] at enough
  omega

/-- A sequence with a limit is full with a group. -/
theorem gives_close {inner : List Node} (left : c.tokens = rest) (free : c.pending = none) :
    Gives (Reader.close terminator (.nodes (stack.length + 1)) true (.braces inner :: stack)) c
      (.braces inner :: stack).reverse rest := by
  have group : (Node.braces inner).isLeaf = false := rfl
  unfold Reader.close
  simp only [Bool.not_true, Bool.false_eq_true, if_false, List.head?_cons, Option.filter_some, group,
    Bool.false_and, List.length_cons, Nat.lt_irrefl]
  exact .pure left free

/-- A group in braces is read as one node. -/
theorem gives_argument {words : List String} {inner : List Node} (ending : Ending terminator)
    (inside : Advances symbols words [] inner.reverse)
    (before : Before c (inBraces words) rest) (enough : c.tokens.length < budget) :
    Gives (argument (nestedWithin symbols budget) terminator) c (.braces inner) rest := by
  obtain ⟨_, after, left, free, -, same⟩ :=
    sequence_braces (.nodes 1) false [] ending inside before enough
  rw [if_pos (by decide)] at same
  unfold argument
  refine .bind (.of_eq same (gives_close left free)) ?_
  intro d left free
  exact .pure left free

/-- Two groups in braces are read as two nodes. -/
theorem gives_twoArguments {first second : List String} {upper lower : List Node}
    (ending : Ending terminator) (top : Advances symbols first [] upper.reverse)
    (bottom : Advances symbols second [] lower.reverse)
    (before : Before c (inBraces first ++ inBraces second) rest)
    (enough : c.tokens.length < budget) :
    Gives (arguments (nestedWithin symbols budget) terminator 2) c [.braces upper, .braces lower]
      rest := by
  obtain ⟨tokens, texts, before'⟩ := before.split
  obtain ⟨budget', d, left, free, enough', same⟩ :=
    sequence_braces (.nodes 2) false [] ending top before' enough
  have next : Before d (inBraces second) rest := ⟨free, tokens, texts, left⟩
  obtain ⟨_, after, left', free', -, same'⟩ :=
    sequence_braces (.nodes 2) true [.braces upper] ending bottom next (left ▸ enough')
  rw [if_neg (by decide)] at same
  rw [if_pos (by simp [Limit.reachedBy])] at same'
  exact .of_eq (same.trans same') (gives_close left' free')

/-! ## One lemma for each kind of node -/

/-- A word that is read as a leaf. -/
structure IsLeafWord (word : String) : Prop where
  starts : ¬ Ending (some word)
  plain : word ∉ ["\\right", "\\middle", "\\left", Word.openBrace, "_", "^", "'"]
  header : Word.begins Word.environmentStart word = false
  shape : Shape.of? word = none
  font : Word.begins "\\math" word = false

theorem isLeafWord_of_plain {word : String} (plain : startsSpecial word = false) :
    IsLeafWord word := by
  have other : ∀ special ∈ ["\x7d", "]", "\\right", "\\end\x7bmatrix\x7d", "\\middle", "\\left",
      Word.openBrace, "_", "^", "'"], word ≠ special := by
    intro special mem
    refine ne_of_special plain ?_
    revert special
    decide
  refine ⟨?_, ?_, begins_eq_false (by decide) plain, ?_, begins_eq_false (by decide) plain⟩
  · simp only [Ending, List.mem_cons, List.not_mem_nil, or_false, reduceCtorEq, false_or,
      Option.some.injEq]
    rintro (same | same | same | same)
    all_goals exact other _ (by decide) same
  · simp only [List.mem_cons, List.not_mem_nil, or_false]
    rintro (same | same | same | same | same | same | same)
    all_goals exact other _ (by decide) same
  · have keys : ∀ entry ∈ Shape.commands, startsSpecial entry.1 = true := by
      decide +kernel
    rw [Shape.of?, List.lookup_eq_none_iff]
    intro entry mem
    exact bne_iff_ne.mpr (ne_of_special plain (keys entry mem))

theorem token_leaf {nested : Nested} {token : Token} (leaf : IsLeafWord token.text) :
    Reader.token symbols nested terminator token stack =
      pure ⟨.leaf token.text :: stack, false⟩ := by
  have plain := leaf.plain
  simp only [List.mem_cons, List.not_mem_nil, or_false, not_or] at plain
  unfold Reader.token
  simp only [plain, leaf.header, beq_iff_eq, Bool.and_eq_true, false_and, if_false, Bool.false_eq_true]
  unfold command
  have shape : shape? symbols token.text = none := by
    simp [shape?, leaf.shape, leaf.font]
  simp only [shape]

theorem Advances.leaf {word : String} (leaf : IsLeafWord word) :
    Advances symbols [word] [] [.leaf word] := by
  refine .ofToken leaf.starts ?_
  intro terminator stack token budget c rest ending text before enough
  obtain ⟨tokens, texts, left⟩ := before.words
  obtain rfl := List.map_eq_nil_iff.mp texts
  subst text
  rw [token_leaf leaf]
  exact .pure left before.free

theorem Advances.braces {words : List String} {inner : List Node}
    (inside : Advances symbols words [] inner.reverse) :
    Advances symbols (inBraces words) [] [.braces inner] := by
  refine .ofToken (by decide) ?_
  intro terminator stack token budget c rest ending text before enough
  exact gives_braces text inside before enough

theorem Advances.fraction {first second : List String} {upper lower : List Node}
    (top : Advances symbols first [] upper.reverse)
    (bottom : Advances symbols second [] lower.reverse) :
    Advances symbols ("\\frac" :: inBraces first ++ inBraces second) []
      [.withChildren "\\frac" [.braces upper, .braces lower]] := by
  refine .ofToken (by decide) ?_
  intro terminator stack token budget c rest ending text before enough
  have shape : shape? symbols token.text = some (.nodes 2) := by
    rw [text]
    rfl
  unfold Reader.token
  simp +decide only [text, if_false]
  unfold command
  simp only [shape]
  refine .bind (gives_twoArguments ending top bottom before enough) ?_
  intro d left free
  rw [text]
  exact .pure left free

/-- A node that a reader gives is put on the stack. -/
theorem gives_push {r : Reader Node} {node : Node} (gives : Gives r c node rest) :
    Gives (r >>= fun node => pure ⟨node :: stack, false⟩) c (⟨node :: stack, false⟩ : Progress)
      rest := by
  refine gives.bind ?_
  intro d left free
  exact .pure left free

theorem gives_squareRoot {words : List String} {inner : List Node} (ending : Ending terminator)
    (inside : Advances symbols words [] inner.reverse)
    (before : Before c (inBraces words) rest) (enough : c.tokens.length < budget) :
    Gives (squareRoot (nestedWithin symbols budget) terminator) c
      (.withChildren "\\sqrt" [.braces inner]) rest := by
  unfold squareRoot bracketed
  refine .step (Before.nextIs before "[") ?_
  rw [if_neg (by decide)]
  refine .bind (gives_argument ending inside before enough) ?_
  intro d left free
  exact .pure left free

theorem gives_root {indexWords words : List String} {index inner : List Node}
    (ending : Ending terminator) (some' : index ≠ [])
    (label : Advances symbols indexWords [] index.reverse)
    (inside : Advances symbols words [] inner.reverse)
    (before : Before c ("[" :: (indexWords ++ "]" :: inBraces words)) rest)
    (enough : c.tokens.length < budget) :
    Gives (squareRoot (nestedWithin symbols budget) terminator) c
      (.withChildren "\\root" [.braces inner, Node.collapse index]) rest := by
  unfold squareRoot bracketed
  refine .step (Before.nextIs before "[") ?_
  rw [if_pos (by decide)]
  obtain ⟨bracket, tail, left, -, behind⟩ := Before.next before
  rw [left, List.length_cons] at enough
  have words_eq : indexWords ++ "]" :: inBraces words =
      (indexWords ++ ["]"]) ++ inBraces words := by simp
  rw [words_eq] at behind
  obtain ⟨tokens, texts, behind⟩ := behind.split
  refine .step (next?_cons left) ?_
  refine .bind (gives_group (by decide) (by decide) label behind (Nat.lt_of_succ_lt enough)) ?_
  intro d left' free
  have next : Before d (inBraces words) rest := ⟨free, tokens, texts, left'⟩
  have less := behind.rest_le
  rw [← left'] at less
  refine .bind (gives_argument ending inside next (by dsimp only at less; omega)) ?_
  intro e left'' free'
  dsimp only
  rw [if_neg (by simpa using some')]
  exact .pure left'' free'

theorem gives_right {closing : String} (before : Before c [closing] rest) :
    Gives (marker "\\right") c (rightLeaf closing) rest := by
  obtain ⟨token, tail, left, rfl, behind⟩ := before.next
  obtain ⟨tokens, texts, left'⟩ := behind.words
  obtain rfl := List.map_eq_nil_iff.mp texts
  unfold marker
  rw [if_pos (by decide)]
  exact .step (next?_cons left) (.pure left' before.free)

theorem gives_fence {opening closing : String} {words : List String} {inner : List Node} {span : Span}
    (inside : Advances symbols words [] inner.reverse)
    (before : Before c (opening :: (words ++ ["\\right", closing])) rest)
    (enough : c.tokens.length < budget) :
    Gives (leftRight (nestedWithin symbols budget) span) c (leftNode opening closing inner) rest := by
  unfold leftRight
  obtain ⟨delimiter, tail, left, rfl, behind⟩ := Before.next before
  rw [left, List.length_cons] at enough
  refine .step (next?_cons left) ?_
  refine .bind (gives_optional (by decide) inside behind (Nat.lt_of_succ_lt enough)
    fun d before => gives_right before) ?_
  intro d left' free
  rw [if_pos (by simp [rightLeaf, Node.leaf, Node.is])]
  exact .pure left' free

/-- A body that does not start with columns has none, where it needs none. -/
theorem take_plain {name : String} {cells : List Node} (star : (name.toList.getLast? == some '*') = false)
    (optional : Alignment.required.contains name = false) (plain : startsWithColumns cells = false) :
    Alignment.take name cells = .ok (none, cells) := by
  unfold Alignment.take
  simp only [star, Bool.false_and, Bool.false_eq_true, if_false, optional]
  rw [if_neg]
  cases cells with
  | nil => decide
  | cons first rest =>
    simp only [startsWithColumns, List.head?_cons, Option.any_some] at plain ⊢
    cases braces : first.is Word.braces with
    | false =>
      rw [if_neg Bool.false_ne_true]
      decide
    | true =>
      rw [braces, Bool.true_and] at plain
      rw [if_pos rfl, plain]
      decide

theorem gives_table {words : List String} {cells : List Node} {span : Span}
    (plain : startsWithColumns cells = false) (inside : Advances symbols words [] cells.reverse)
    (before : Before c (words ++ ["\\end\x7bmatrix\x7d"]) rest) (enough : c.tokens.length < budget) :
    Gives (environment (nestedWithin symbols budget) span "\\begin\x7bmatrix\x7d") c
      (.withChildren "\\matrix" cells) rest := by
  have name : Word.inside? Word.environmentStart "\\begin\x7bmatrix\x7d" = some "matrix" := by decide
  have ending : Ending (some "\\end\x7bmatrix\x7d") := by decide
  unfold environment
  rw [name]
  refine .bind (gives_optional ending inside before enough
    fun d before => gives_leaf (by decide) before) ?_
  intro d left free
  rw [if_pos (by simp [Node.leaf, Node.is]), List.dropLast_concat]
  dsimp only [Option.getD_some]
  rw [take_plain (by decide) (by decide) plain]
  exact .pure left free

/-- Whether a node takes a script as it is: it has none yet, and needs none of its own rules. -/
structure TakesScript (kind : ScriptKind) (base script result : Node) : Prop where
  free : Script.conflict? kind base = none
  plain : (base.is "\\limits" && base.isLeaf) = false
  result : Script.attach kind none base script = result

theorem gives_script {kind : ScriptKind} {base result : Node} {words : List String}
    {inner : List Node} {span : Span} (ending : Ending terminator)
    (takes : TakesScript kind base (.braces inner) result)
    (inside : Advances symbols words [] inner.reverse) (before : Before c (inBraces words) rest)
    (enough : c.tokens.length < budget) :
    Gives (script (nestedWithin symbols budget) terminator kind span (base :: stack)) c
      ⟨result :: stack, false⟩ rest := by
  unfold script
  simp only [List.head?_cons, Option.getD_some, List.tail_cons, takes.free, takes.plain,
    Bool.false_eq_true, if_false]
  refine .bind (gives_argument ending inside before enough) ?_
  intro d left free
  rw [takes.result]
  exact .pure left free

theorem attach_new {kind : ScriptKind} {base script : Node}
    (tokens : ∀ token ∈ ["_", "^", "_^", "\\overbrace", "\\underbrace"], base.is token = false) :
    Script.attach kind none base script = .withChildren kind.token [base, script] := by
  simp only [List.mem_cons, List.not_mem_nil, or_false, forall_eq_or_imp, forall_eq] at tokens
  obtain ⟨low, high, both, upper, lower⟩ := tokens
  unfold Script.attach
  simp only [Script.braceModifier?, Script.both, low, high, both, upper, lower, Bool.false_eq_true,
    if_false, Bool.false_and, Option.or_none]
  split <;> rfl

theorem takesScript_base {base : Node} (shape : IsBase base) (kind : ScriptKind) (script : Node) :
    TakesScript kind base script (.withChildren kind.token [base, script]) := by
  have tokens : ∀ token ∈ ["_", "^", "_^", "\\overbrace", "\\underbrace", "\\limits"],
      base.is token = false := by
    intro token mem
    cases shape with
    | letter letter =>
      refine beq_eq_false_iff_ne.mpr (ne_of_special letter.startsSpecial_eq_false ?_)
      revert token
      decide
    | braces children =>
      show (Word.braces == token) = false
      revert token
      decide
  refine ⟨?_, by simp [tokens "\\limits" (by decide)], ?_⟩
  · have high := tokens "^" (by decide)
    have both := tokens "_^" (by decide)
    cases kind with
    | sub =>
      have low := tokens "_" (by decide)
      simp [Script.conflict?, Script.both, low, both]
    | sup =>
      have none : Script.superscript? base = none := by
        unfold Script.superscript?
        simp only [high, both, Script.both, Bool.false_eq_true, if_false]
        split <;> rfl
      rw [Script.conflict?, none]
      rfl
  · refine attach_new fun token mem => tokens token ?_
    revert token
    decide

theorem takesScript_second (base : Node) (sub sup : List Node) :
    TakesScript .sup (.withChildren "_" [base, .braces sub]) (.braces sup)
      (.withChildren Script.both [base, .braces sub, .braces sup]) :=
  ⟨rfl, rfl, rfl⟩

theorem token_script {nested : Nested} {token : Token} {kind : ScriptKind} (text : token.text = kind.token) :
    Reader.token symbols nested terminator token stack = script nested terminator kind token.span stack := by
  unfold Reader.token
  rw [text]
  cases kind with
  | sub => rfl
  | sup => rfl

theorem Advances.script {kind : ScriptKind} {base result : Node} {words : List String}
    {inner : List Node} (takes : TakesScript kind base (.braces inner) result)
    (inside : Advances symbols words [] inner.reverse) :
    Advances symbols (kind.token :: inBraces words) [base] [result] := by
  refine .ofToken (by cases kind <;> decide) ?_
  intro terminator stack token budget c rest ending text before enough
  rw [token_script text]
  exact gives_script ending takes inside before enough

theorem token_squareRoot {nested : Nested} {token : Token} (text : token.text = "\\sqrt") :
    Reader.token symbols nested terminator token stack =
      squareRoot nested terminator >>= fun node => pure ⟨node :: stack, false⟩ := by
  have shape : shape? symbols token.text = some .squareRoot := by
    rw [text]
    rfl
  unfold Reader.token
  simp +decide only [text, if_false]
  unfold command
  simp only [shape]
  rfl

theorem Advances.squareRoot {words : List String} {inner : List Node}
    (inside : Advances symbols words [] inner.reverse) :
    Advances symbols ("\\sqrt" :: inBraces words) [] [.withChildren "\\sqrt" [.braces inner]] := by
  refine .ofToken (by decide) ?_
  intro terminator stack token budget c rest ending text before enough
  rw [token_squareRoot text]
  exact gives_push (gives_squareRoot ending inside before enough)

theorem Advances.root {indexWords words : List String} {index inner : List Node}
    (some' : index ≠ []) (label : Advances symbols indexWords [] index.reverse)
    (inside : Advances symbols words [] inner.reverse) :
    Advances symbols ("\\sqrt" :: "[" :: (indexWords ++ "]" :: inBraces words)) []
      [.withChildren "\\root" [.braces inner, Node.collapse index]] := by
  refine .ofToken (by decide) ?_
  intro terminator stack token budget c rest ending text before enough
  rw [token_squareRoot text]
  exact gives_push (gives_root ending some' label inside before enough)

theorem Advances.fence {opening closing : String} {words : List String} {inner : List Node}
    (inside : Advances symbols words [] inner.reverse) :
    Advances symbols ("\\left" :: opening :: (words ++ ["\\right", closing])) []
      [leftNode opening closing inner] := by
  refine .ofToken (by decide) ?_
  intro terminator stack token budget c rest ending text before enough
  unfold Reader.token
  simp +decide only [text, if_false, if_true]
  exact gives_push (gives_fence inside before enough)

theorem Advances.table {words : List String} {cells : List Node}
    (plain : startsWithColumns cells = false) (inside : Advances symbols words [] cells.reverse) :
    Advances symbols ("\\begin\x7bmatrix\x7d" :: (words ++ ["\\end\x7bmatrix\x7d"])) []
      [.withChildren "\\matrix" cells] := by
  refine .ofToken (by decide) ?_
  intro terminator stack token budget c rest ending text before enough
  unfold Reader.token
  simp +decide only [text, if_false, if_true]
  exact gives_push (gives_table plain inside before enough)

theorem isLeafWord_mark {mark : String} (known : mark ∈ ["&", "\\\\"]) : IsLeafWord mark := by
  simp only [List.mem_cons, List.not_mem_nil, or_false] at known
  rcases known with rfl | rfl
  · exact isLeafWord_of_plain (by decide)
  · exact ⟨by decide, by decide, by decide, rfl, by decide⟩

/-! ## Lists of nodes -/

theorem Advances.cons {first words : List String} {node : Node} {nodes : List Node}
    (one : Advances symbols first [] [node]) (rest : Advances symbols words [] nodes.reverse) :
    Advances symbols (first ++ words) [] (node :: nodes).reverse := by
  rw [List.reverse_cons]
  exact one.append (rest.above [node])

/-- Reading what is spelled puts its nodes on the stack. -/
theorem advances_spelled {body : Bool} {nodes : List Node} {words : List String}
    (spelled : Spelled body nodes words) : Advances symbols words [] nodes.reverse := by
  induction spelled with
  | nil => exact .nil
  | letter letter _ ih =>
    exact .cons (.leaf (isLeafWord_of_plain letter.startsSpecial_eq_false)) ih
  | number some all _ ih =>
    exact .cons (.leaf (isLeafWord_of_plain (startsSpecial_number some all))) ih
  | mark known _ ih => exact .cons (.leaf (isLeafWord_mark known)) ih
  | braces _ _ inside rest => exact .cons (.braces inside) rest
  | script kind shape _ _ _ on inside rest =>
    have scripted := on.append (.script (takesScript_base shape kind _) inside)
    exact .cons scripted rest
  | scripts shape _ _ _ _ on low high rest =>
    have first := on.append (.script (takesScript_base shape .sub _) low)
    have second := first.append (.script (takesScript_second _ _ _) high)
    exact .cons second rest
  | fraction _ _ _ top bottom rest => exact .cons (.fraction top bottom) rest
  | squareRoot _ _ inside rest => exact .cons (.squareRoot inside) rest
  | root some _ _ _ label inside rest => exact .cons (.root some label inside) rest
  | fence _ _ _ _ inside rest => exact .cons (.fence inside) rest
  | table plain _ _ inside rest => exact .cons (.table plain inside) rest

end Reader

/-! ## Whole sources -/

namespace Formula

theorem ofTokens?_spelled (symbols : SymbolTable) {nodes : List Node} {tokens : List Token}
    (spelled : Spelled false nodes (tokens.map (·.text))) (stop : Nat) :
    ofTokens? symbols tokens stop = .ok nodes := by
  unfold ofTokens?
  dsimp only
  cases tokens with
  | nil =>
    rw [spelled.nil_of_no_words]
    rfl
  | cons token rest =>
    let start : Cursor := { tokens := token :: rest, last := ⟨0, 0⟩, stop }
    have before : Reader.Before start ((token :: rest).map (·.text)) [] :=
      ⟨rfl, token :: rest, rfl, (List.append_nil _).symm⟩
    have advances : Reader.Advances symbols _ [] nodes.reverse := Reader.advances_spelled spelled
    obtain ⟨budget, after, left, free, enough, same⟩ :=
      advances none [] false ((token :: rest).length + 1) start [] (by decide) before
        (Nat.lt_succ_self _)
    obtain ⟨budget, rfl⟩ : ∃ n, budget = n + 1 := ⟨budget - 1, by omega⟩
    rw [if_neg (by simp)]
    dsimp only [StateT.run]
    rw [List.append_nil, List.append_nil] at same
    rw [same, Reader.sequence, Reader.turn, Reader.bind_ok (Reader.takePending_none free)]
    dsimp only
    rw [Reader.bind_ok (Reader.next?_nil left)]
    dsimp only [List.map_cons, List.isEmpty_cons, Bool.not_false, Bool.or_true]
    simp only [Reader.close, List.reverse_reverse]
    rfl

/-- Parsing inverts spelling: the source of a list of nodes, with one space between its words, is
parsed to that list. -/
theorem parse_spelled (symbols : SymbolTable) {nodes : List Node} {words : List String}
    (spelled : Spelled false nodes words) : parse symbols (" ".intercalate words) = .ok nodes := by
  have texts := Source.tokens_spaced symbols spelled.spaced
  rw [← texts] at spelled
  rw [parse, ofTokens?_spelled symbols spelled]

/-- An index between stretching delimiters. -/
theorem parse_spelled_index :
    parse .known (" ".intercalate ["\\left", "(", "a", "_", "\x7b", "12", "\x7d", "\\right", "."]) =
      .ok [leftNode "(" "." [.withChildren "_" [.leaf "a", .braces [.leaf "12"]]]] := by
  have letter : IsLetter 'a' := .inl rfl
  have number : Spelled false [.leaf (String.ofList ['1', '2'])] [String.ofList ['1', '2']] :=
    .number (by decide) (List.all_eq_true.mp (by decide)) .nil
  have indexed : Spelled false [.withChildren "_" [.leaf "a", .braces [.leaf "12"]]] _ :=
    .script .sub (.letter letter) (.letter letter .nil) number .nil
  exact parse_spelled .known (.fence (by decide) (by decide) indexed .nil)

end Formula

end FormulaMarkup

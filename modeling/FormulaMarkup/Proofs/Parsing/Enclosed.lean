import FormulaMarkup.Proofs.Parsing.Embedding

/-!
Tokens that are enclosed. In braces, as the body of a table command and as the body of a table environment,
tokens that are accepted on their own are read to the nodes that they have on their own, and the construct
around them is one node with these nodes. Main statements: braces hold exactly their content, and a table
command and its environment agree.
-/
namespace FormulaMarkup

open Wait
open Node (withChildren)

/-! ## Words that are one node -/

namespace Reader

/-- Words that are one node wherever a sequence is read, whatever is on its stack and whatever follows: the
node is put on the stack, and what follows is read as if it stood there alone. -/
def OneNode (symbols : SymbolTable) (words : List String) (node : Node) : Prop :=
  ∀ (terminator : Option String) (limit : Limit) (consumed : Bool) (stack : List Node) (c : Cursor)
    (rest : List Token) (budget budget' : Nat), Closing terminator → Before c words rest →
    c.tokens.length < budget → rest.length < budget' →
    ∃ after, after.tokens = rest ∧ after.pending = none ∧
      sequence symbols terminator limit budget consumed stack c =
        (if limit.reachedBy (stack.length + 1) then Reader.close terminator limit true (node :: stack)
          else sequence symbols terminator limit budget' true (node :: stack)) after

variable {symbols : SymbolTable} {terminator : Option String} {stack nodes : List Node} {c : Cursor}
  {words : List String} {word name : String} {node : Node} {rest : List Token} {nested : Nested} {token : Token}

/-- A token that puts one node on the stack makes it of the words behind it. -/
theorem oneNode_of_token (other : ∀ {terminator}, Closing terminator → some word ≠ terminator)
    (reads : ∀ {terminator : Option String} {stack : List Node} {token : Token} {c : Cursor} {rest : List Token},
      Closing terminator → token.text = word → Before c words rest →
      Gives (Reader.token symbols (unbudgetedNested symbols) terminator token stack) c ⟨node :: stack, false⟩
        rest) :
    OneNode symbols (word :: words) node := by
  intro terminator limit consumed stack c rest budget budget' known before enough enough'
  obtain ⟨token, tail, left, text, behind⟩ := before.next
  obtain ⟨after, given, left', free⟩ := reads known text behind
  refine ⟨after, left', free, ?_⟩
  rw [(sequence_same symbols budget terminator limit consumed stack c enough).1,
    unbudgeted_token before.free left (text ▸ other known) given, List.length_cons]
  split
  · rfl
  · exact (sequence_same symbols budget' terminator limit true (node :: stack) after (left' ▸ enough')).1.symm

/-- A source of such words has that node and nothing else. -/
theorem OneNode.parsed {tokens : List Token} (one : OneNode symbols words node) (some' : words ≠ [])
    (texts : tokens.map (·.text) = words) (stop : Nat) : Formula.ofTokens? symbols tokens stop = .ok [node] := by
  have before : Before { tokens, last := ⟨0, 0⟩, stop } words [] :=
    ⟨rfl, tokens, texts, (List.append_nil _).symm⟩
  obtain ⟨after, done, free, same⟩ :=
    one none .unbounded false [] _ [] (tokens.length + 1) 1 closing_none before (Nat.lt_succ_self _) Nat.one_pos
  have more : tokens.isEmpty = false := by
    cases tokens with
    | nil => exact absurd texts.symm some'
    | cons first rest => rfl
  have ends := (sequence_same symbols 1 none .unbounded true [node] after (done ▸ Nat.one_pos)).1
  unfold Formula.ofTokens?
  rw [more, if_neg Bool.false_ne_true, StateT.run, same, if_neg (by simp [Limit.reachedBy]), ends,
    unbudgeted_end free done]
  rfl

/-! ## Braces -/

theorem closing_closeBrace : Closing (some Word.closeBrace) := closing_of_mem (by decide)

/-- What a group reads in braces is one node. -/
theorem oneNode_braces (reads : ∀ {c : Cursor} {rest : List Token}, Before c (words ++ [Word.closeBrace]) rest →
    Gives (Reader.group (unbudgetedNested symbols) Word.closeBrace) c nodes rest) :
    OneNode symbols (inBraces words) (.braces nodes) := by
  refine oneNode_of_token Closing.ne_openBrace ?_
  rintro terminator stack token c rest - text before
  rw [token_openBrace text]
  exact (reads before).bind fun d left free => .pure left free

theorem Accepted.braces (accepted : Accepted symbols (some Word.closeBrace) true words nodes) :
    OneNode symbols (inBraces words) (.braces nodes) :=
  oneNode_braces fun before => accepted.group closing_closeBrace (by decide) before

/-! ## Tables -/

/-- A command with a shape is read by it. -/
theorem token_shape {shape : Shape} (found : Shape.of? token.text = some shape) (other : token.text ≠ "\\middle") :
    Reader.token symbols nested terminator token stack = command symbols nested terminator token stack := by
  have plain : Shape.commands.all fun entry => entry.1 == "\\middle" ||
      !Word.begins Word.environmentStart entry.1 &&
        !List.contains ["\\right", "\\left", Word.openBrace, "_", "^", "'"] entry.1 := by
    decide +kernel
  obtain ⟨front, back, split, -⟩ := List.lookup_eq_some_iff.mp found
  have listed : (token.text, shape) ∈ Shape.commands := split ▸ List.mem_append_right front List.mem_cons_self
  have ordinary := List.all_eq_true.mp plain _ listed
  simp only [Bool.or_eq_true, beq_iff_eq, other, false_or, Bool.and_eq_true, Bool.not_eq_true'] at ordinary
  obtain ⟨fresh, words⟩ := ordinary
  simp only [List.contains_cons, List.contains_nil, Bool.or_false, Bool.or_eq_false_iff] at words
  obtain ⟨right, left, opens, sub, sup, prime⟩ := words
  have middle : (token.text == "\\middle") = false := by simp [other]
  unfold Reader.token
  simp only [fresh, right, left, opens, sub, sup, prime, middle, Bool.false_and, Bool.false_eq_true, if_false]

theorem command_table (found : Shape.of? token.text = some .table) :
    command symbols nested terminator token stack = table nested terminator token.text stack := by
  unfold command shape?
  rw [found]

theorem token_environment (begins : Word.begins Word.environmentStart token.text = true) :
    Reader.token symbols nested terminator token stack =
      environment nested token.span token.text >>= fun node => pure ⟨node :: stack, false⟩ := by
  have right : (token.text == "\\right") = false :=
    beq_eq_false_iff_ne.mpr (Word.ne_of_begins begins (by decide +kernel))
  have middle : (token.text == "\\middle") = false :=
    beq_eq_false_iff_ne.mpr (Word.ne_of_begins begins (by decide +kernel))
  unfold Reader.token
  simp only [right, middle, begins, Bool.false_and, Bool.false_eq_true, if_false, if_true]

/-- The token that starts an environment. -/
def beginning (name : String) : String := Word.environmentStart ++ name ++ Word.closeBrace

theorem begins_beginning (name : String) : Word.begins Word.environmentStart (beginning name) = true := by
  simp [beginning, Word.begins, String.toList_append, List.append_assoc]

theorem inside?_beginning (name : String) : Word.inside? Word.environmentStart (beginning name) = some name :=
  Word.inside?_around _ _

theorem ne_beginning (known : Closing terminator) : some (beginning name) ≠ terminator := by
  have begins := begins_beginning name
  have words : ∀ word ∈ [Word.closeBrace, "]", "\\of", "\\right"],
      Word.begins Word.environmentStart word = false := by
    decide +kernel
  refine known.ne_of (fun mem => Word.ne_of_begins begins (words _ mem) rfl) ?_
  exact Word.begins_apart begins (by decide +kernel) (by decide +kernel)

/-- The body of a table command in braces. -/
theorem Accepted.table (accepted : Accepted symbols (some Word.closeBrace) true words nodes)
    (shape : Shape.of? word = some .table) (other : ∀ {terminator}, Closing terminator → some word ≠ terminator)
    (plain : word ≠ "\\middle") :
    OneNode symbols (word :: inBraces words) (withChildren word nodes) := by
  refine oneNode_of_token other ?_
  rintro terminator stack token c rest - rfl before
  obtain ⟨brace, tail, left, opens, behind⟩ := Before.next before
  rw [token_shape shape plain, command_table shape, Reader.table]
  refine .step (nextIs_ok _ c) ?_
  rw [left, List.head?_cons, Option.any_some, opens, if_pos (by decide)]
  refine .step (next?_cons left) ?_
  exact (accepted.group closing_closeBrace (by decide) behind).bind fun d left free => .pure left free

/-- The body of a table environment. -/
theorem Accepted.environment
    (accepted : Accepted symbols (some (Wait.ending (beginning name))) true words nodes)
    (star : (name.toList.getLast? == some '*') = false) (optional : Alignment.required.contains name = false)
    (plain : startsWithColumns nodes = false) :
    OneNode symbols (beginning name :: (words ++ [Wait.ending (beginning name)]))
      (withChildren ("\\" ++ name) nodes) := by
  refine oneNode_of_token ne_beginning ?_
  rintro terminator stack token c rest - text before
  rw [token_environment (text ▸ begins_beginning name), text, Reader.environment, inside?_beginning]
  have read := accepted.optional (closing_ending _) (ending_ne_right _) before
  rw [Wait.ending, inside?_beginning] at read
  refine .bind (.bind read fun d left free => ?_) fun d left free => .pure left free
  rw [if_pos (by simp [Node.leaf, Node.is]), List.dropLast_concat]
  dsimp only [Option.getD_some]
  rw [take_plain star optional plain]
  exact .pure left free

end Reader

/-! ## Sources -/

namespace Formula

open Reader (Accepted beginning)

variable {symbols : SymbolTable} {words : List String} {nodes : List Node}

/-- Braces contain exactly their content. Around words that are accepted on their own and contained in braces
they are one group with the nodes of these words, where no environment stands in for a closing token. -/
theorem ofTokens?_inBraces (accepted : Accepted symbols (some Word.closeBrace) true words nodes)
    {tokens : List Token} (texts : tokens.map (·.text) = inBraces words) (stop : Nat) :
    ofTokens? symbols tokens stop = .ok [.braces nodes] :=
  accepted.braces.parsed (by simp [inBraces]) texts stop

/-- A color that runs up to the end of the group from within a script. -/
theorem ofTokens?_inBraces_color :
    let words := ["x", "^", "\\color", "red", "a"]
    let colored := (withChildren "\\color" [.leaf "a"]).setAttribute "mathcolor" "red"
    let node := withChildren "^" [.leaf "x", colored]
    let tokens := Source.tokens .known "\x7bx^\\color\x7bred\x7da\x7d"
    Accepted .known (some Word.closeBrace) true words [node] ∧ tokens.map (·.text) = inBraces words ∧
      ofTokens? .known tokens 17 = .ok [.braces [node]] := by
  intro words colored node tokens
  have accepted : Accepted .known (some Word.closeBrace) true words [node] := by
    refine ⟨⟨by decide +kernel, by decide⟩, by decide +kernel, ?_⟩
    exact ⟨Source.tokens .known "x^\\color\x7bred\x7da", 15, by decide +kernel, by decide +kernel⟩
  have texts : tokens.map (·.text) = inBraces words := by decide +kernel
  exact ⟨accepted, texts, ofTokens?_inBraces accepted texts 17⟩

/-- A pair of delimiters that is closed by an environment. -/
def unpaired : String := "\\left(\\begin\x7bright\x7da\\end\x7bright\x7d"

def unpairedNode : Node :=
  { withChildren "\\left" [withChildren "\\right" [.leaf "a"]] with delimiter := some (.single "(") }

/-- In braces the environment does not close the pair. -/
theorem unpaired_refused_in_braces :
    let words := ["\\left", "(", "\\begin\x7bright\x7d", "a", "\\end\x7bright\x7d"]
    contained (some Word.closeBrace) true [upTo none] words = true ∧ words.getLast? ≠ some "\\right" ∧
      (Source.tokens .known unpaired).map (·.text) = words ∧
      ofTokens? .known (Source.tokens .known unpaired) 31 = .ok [unpairedNode] ∧
      (Source.tokens .known ("\x7b" ++ unpaired ++ "\x7d")).map (·.text) = inBraces words ∧
      ofTokens? .known (Source.tokens .known ("\x7b" ++ unpaired ++ "\x7d")) 33 =
        .error (.refused ⟨⟨1, 6⟩, .unbalancedDelimiter .left⟩) := by
  decide +kernel

/-- The table commands of which the environment takes no columns but those that its body may start with. -/
def tableNames : List String := [
  "matrix", "pmatrix", "bmatrix", "Bmatrix", "vmatrix", "Vmatrix", "substack", "cases", "displaylines",
  "smallmatrix", "split"]

theorem shape_table : ∀ name ∈ tableNames, Shape.of? ("\\" ++ name) = some .table ∧
    ("\\" ++ name) ∉ ["\\middle", Word.closeBrace, "]", "\\of", "\\right"] ∧
    Word.begins Word.environmentEnd ("\\" ++ name) = false ∧
    (name.toList.getLast? == some '*') = false ∧ Alignment.required.contains name = false := by
  decide +kernel

/-- A table command and its environment agree. With a body that is accepted on its own, contained in both, and
does not start with columns, each of them is one node with the nodes of the body, where no environment stands
in for a closing token. -/
theorem ofTokens?_tables {name : String} (listed : name ∈ tableNames)
    (accepted : Accepted symbols (some Word.closeBrace) true words nodes)
    (inside : contained (some (ending (beginning name))) true [upTo none] words = true)
    (plain : startsWithColumns nodes = false) {tokens tokens' : List Token}
    (texts : tokens.map (·.text) = ("\\" ++ name) :: inBraces words)
    (texts' : tokens'.map (·.text) = beginning name :: (words ++ [ending (beginning name)])) (stop stop' : Nat) :
    ofTokens? symbols tokens stop = .ok [withChildren ("\\" ++ name) nodes] ∧
      ofTokens? symbols tokens' stop' = .ok [withChildren ("\\" ++ name) nodes] := by
  obtain ⟨shape, other, fresh, star, optional⟩ := shape_table name listed
  rw [List.mem_cons, not_or] at other
  have command := accepted.table shape (fun known => known.ne_of other.2 fresh) other.1
  have accepted' : Accepted symbols (some (ending (beginning name))) true words nodes :=
    ⟨accepted.genuine, inside, accepted.parsed⟩
  have environment := accepted'.environment star optional plain
  exact ⟨command.parsed (List.cons_ne_nil _ _) texts stop, environment.parsed (List.cons_ne_nil _ _) texts' stop'⟩

/-- A body with an environment of the same name, and with a fraction of all that stands in it. -/
theorem ofTokens?_tables_matrix :
    let words := ["a", "&", "\\begin\x7bmatrix\x7d", "b", "\\end\x7bmatrix\x7d", "\\over", "c"]
    let under := withChildren "\\matrix" [.leaf "b"]
    let nodes := [withChildren "\\frac" [.braces [.leaf "a", .leaf "&", under], .leaf "c"]]
    let body := "a&\\begin\x7bmatrix\x7db\\end\x7bmatrix\x7d\\over c"
    let tokens := Source.tokens .known ("\\matrix\x7b" ++ body ++ "\x7d")
    let tokens' := Source.tokens .known ("\\begin\x7bmatrix\x7d" ++ body ++ "\\end\x7bmatrix\x7d")
    "matrix" ∈ tableNames ∧ Accepted .known (some Word.closeBrace) true words nodes ∧
      contained (some (ending (beginning "matrix"))) true [upTo none] words = true ∧
      startsWithColumns nodes = false ∧ tokens.map (·.text) = "\\matrix" :: inBraces words ∧
      tokens'.map (·.text) = beginning "matrix" :: (words ++ [ending (beginning "matrix")]) ∧
      ofTokens? .known tokens 48 = .ok [withChildren "\\matrix" nodes] ∧
      ofTokens? .known tokens' 67 = .ok [withChildren "\\matrix" nodes] := by
  intro words under nodes body tokens tokens'
  have listed : "matrix" ∈ tableNames := by decide
  have accepted : Accepted .known (some Word.closeBrace) true words nodes := by
    refine ⟨⟨by decide +kernel, by decide⟩, by decide +kernel, ?_⟩
    exact ⟨Source.tokens .known body, 39, by decide +kernel, by decide +kernel⟩
  have inside : contained (some (ending (beginning "matrix"))) true [upTo none] words = true := by decide +kernel
  have plain : startsWithColumns nodes = false := by decide +kernel
  have texts : tokens.map (·.text) = "\\matrix" :: inBraces words := by decide +kernel
  have texts' : tokens'.map (·.text) = beginning "matrix" :: (words ++ [ending (beginning "matrix")]) := by
    decide +kernel
  obtain ⟨command, environment⟩ := ofTokens?_tables listed accepted inside plain texts texts' 48 67
  exact ⟨listed, accepted, inside, plain, texts, texts', command, environment⟩

/-- In a table the environment does not close the pair either. -/
theorem unpaired_refused_in_tables :
    let words := ["\\left", "(", "\\begin\x7bright\x7d", "a", "\\end\x7bright\x7d"]
    let tokens := Source.tokens .known ("\\matrix\x7b" ++ unpaired ++ "\x7d")
    let tokens' := Source.tokens .known ("\\begin\x7bmatrix\x7d" ++ unpaired ++ "\\end\x7bmatrix\x7d")
    contained (some Word.closeBrace) true [upTo none] words = true ∧
      contained (some (ending (beginning "matrix"))) true [upTo none] words = true ∧
      words.getLast? ≠ some "\\right" ∧ (Source.tokens .known unpaired).map (·.text) = words ∧
      ofTokens? .known (Source.tokens .known unpaired) 31 = .ok [unpairedNode] ∧
      startsWithColumns [unpairedNode] = false ∧
      tokens.map (·.text) = "\\matrix" :: inBraces words ∧
      tokens'.map (·.text) = beginning "matrix" :: (words ++ [ending (beginning "matrix")]) ∧
      ofTokens? .known tokens 40 = .error (.refused ⟨⟨8, 13⟩, .unbalancedDelimiter .left⟩) ∧
      ofTokens? .known tokens' 59 = .error (.refused ⟨⟨14, 19⟩, .unbalancedDelimiter .left⟩) := by
  decide +kernel

end Formula

end FormulaMarkup

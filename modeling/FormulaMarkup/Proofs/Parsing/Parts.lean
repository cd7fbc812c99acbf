import FormulaMarkup.Proofs.Parsing.Success

/-!
The parts of commands. What a token starts tells which parts follow it, and how a node is made of the
nodes that they hold. The readers of all commands are taken apart here once, so that what is asked of
all that is parsed only has to be followed through the parts and the ways to make a node. Main
statement: a token that has been read has read its parts, one behind the other, and has made its
nodes of them.
-/
namespace FormulaMarkup

/-! ## What a token starts -/

/-- What a token starts where it ends nothing. A command without a shape is a leaf. -/
inductive Start where
  | environment
  | leftRight
  | group
  | script (kind : ScriptKind)
  | prime
  | command (shape : Option Shape)
  deriving Repr, DecidableEq

/-- One thing to read. -/
inductive Part where
  /-- A bracket or brace that follows. -/
  | opening (text : String)
  /-- One token, whatever it is. -/
  | raw
  /-- The token behind a `\left`. -/
  | delimiter
  /-- A delimiter, which is a token or the text in braces. -/
  | fence
  | nodes (count : Nat)
  /-- A sequence of its own, up to a token. -/
  | within (closing : String)
  /-- All that follows in the sequence around. -/
  | rest
  deriving Repr, DecidableEq

namespace Start

def of (symbols : SymbolTable) (text : String) : Start :=
  if Word.begins Word.environmentStart text then environment
  else if text = "\\left" then leftRight
  else if text = Word.openBrace then group
  else if text = "_" then script .sub
  else if text = "^" then script .sup
  else if text = "'" then prime
  else command (Reader.shape? symbols text)

/-- The parts of a command with a shape, before a token that is known. -/
def shapeParts (next : Option String) : Shape → List Part
  | .nodes count => [.nodes count]
  | .reversed => [.nodes 2]
  | .negation | .space => [.nodes 1]
  | .labelledArrow | .squareRoot =>
    if next = some "[" then [.opening "[", .within "]", .nodes 1] else [.nodes 1]
  | .color => [.raw, .rest]
  | .style | .link => [.raw, .nodes 1]
  | .rawText => [.raw]
  | .infixFraction fraction =>
    (if fraction.readsFences then [.fence, .fence] else []) ++
      (if fraction.bar = .argument then [.nodes 1] else []) ++ [.rest]
  | .root => [.within "\\of", .nodes 1]
  | .table =>
    if next = some Word.openBrace then [.opening Word.openBrace, .within Word.closeBrace] else [.rest]
  | .generalFraction => [.fence, .fence, .nodes 1, .nodes 1, .nodes 2]
  | .sideScripts => [.nodes 3]
  | .skew => [.nodes 2]

/-- The parts of what a token starts, before a token that is known. -/
def parts (text : String) (next : Option String) : Start → List Part
  | environment => [.within (Wait.ending text)]
  | leftRight => [.delimiter, .within "\\right"]
  | group => [.within Word.closeBrace]
  | script _ => [.nodes 1]
  | prime => []
  | command none => []
  | command (some shape) => shapeParts next shape

end Start

/-- A part opens with a bracket or a brace, and is read up to a token that ends sequences. -/
def Part.Known : Part → Prop
  | .opening text => text = "[" ∨ text = Word.openBrace
  | .within closing => Wait.Closing (some closing)
  | _ => True

theorem Start.parts_known (start : Start) (text : String) (next : Option String) :
    ∀ part ∈ start.parts text next, part.Known := by
  have bracket : Wait.Closing (some "]") := Wait.closing_of_mem (by decide)
  have brace : Wait.Closing (some Word.closeBrace) := Wait.closing_of_mem (by decide)
  have of : Wait.Closing (some "\\of") := Wait.closing_of_mem (by decide)
  have right : Wait.Closing (some "\\right") := Wait.closing_of_mem (by decide)
  cases start with
  | environment => simpa [parts, Part.Known] using Wait.closing_ending text
  | leftRight => simpa [parts, Part.Known] using right
  | group => simpa [parts, Part.Known] using brace
  | script kind => simp [parts, Part.Known]
  | prime => simp [parts]
  | command shape =>
    cases shape with
    | none => simp [parts]
    | some shape =>
      cases shape with
      | labelledArrow | squareRoot =>
        simp only [parts, shapeParts]
        split
        · simpa [Part.Known] using bracket
        · simp [Part.Known]
      | root => simpa [parts, shapeParts, Part.Known] using of
      | table =>
        simp only [parts, shapeParts]
        split
        · simpa [Part.Known] using brace
        · simp [Part.Known]
      | infixFraction fraction =>
        simp only [parts, shapeParts]
        split <;> split <;> simp [Part.Known]
      | _ => simp [parts, shapeParts, Part.Known]

/-! ## How nodes are made -/

namespace Node

/-- A table body that is one group is what the group holds. -/
def unbraced (nodes : List Node) : List Node :=
  match nodes with
  | [only] => if only.is Word.braces then only.childList else nodes
  | _ => nodes

/-- The operator between side scripts. -/
def sideOperator (operator : Node) : Node :=
  { token := operator.token, children := operator.children, attributes := [("movablelimits", "false")] }

/-- An operator with the scripts of two decorations. -/
def sideset (left right operator : Node) : Node :=
  .withChildren "\\sideset" [
    .withChildren (Reader.sideParts left).1
      (.withChildren "\\vphantom" [operator.sideOperator] :: (Reader.sideParts left).2),
    .withChildren (Reader.sideParts right).1 (operator.sideOperator :: (Reader.sideParts right).2)]

end Node

open Node (collapse withChildren)
open Reader (stripped Parted)

/-- The node that is made of what the parts behind a token hold. -/
inductive Builds (symbols : SymbolTable) (text : String) : Start → List (List Node) → Node → Prop
  | leaf : Builds symbols text (.command none) [] (.leaf text)
  | nodes {count : Nat} {args : List Node} :
    Builds symbols text (.command (some (.nodes count))) [args] (withChildren text args)
  | reversed {args : List Node} :
    Builds symbols text (.command (some .reversed)) [args] (withChildren text args.reverse)
  | negated {args : List Node} {negated : String}
      (known : Reader.negated? symbols (collapse args).token = some negated)
      (leaf : (collapse args).isLeaf = true) :
    Builds symbols text (.command (some .negation)) [args] (.leaf negated)
  | bareArrow {args : List Node} :
    Builds symbols text (.command (some .labelledArrow)) [args] (withChildren text [collapse args])
  | labelledArrow {label args : List Node} :
    Builds symbols text (.command (some .labelledArrow)) [[], label, args]
      (withChildren text [.braces (stripped "]" label), collapse args])
  | space {args : List Node} {width : String} :
    Builds symbols text (.command (some .space)) [args] ((Node.leaf text).setAttribute "width" width)
  | style {args : List Node} {value : String} :
    Builds symbols text (.command (some .style)) [[], args]
      ((collapse args).setAttribute "style" value)
  | rawText {value : String} :
    Builds symbols text (.command (some .rawText)) [[]] { Node.leaf text with text := some value }
  | link {args : List Node} {target : String} :
    Builds symbols text (.command (some .link)) [[], args]
      ((withChildren text args).setAttribute "href" target)
  | squareRoot {args : List Node} :
    Builds symbols text (.command (some .squareRoot)) [args] (withChildren "\\sqrt" [collapse args])
  | emptyIndex {index args : List Node} (empty : stripped "]" index = []) :
    Builds symbols text (.command (some .squareRoot)) [[], index, args]
      (withChildren "\\sqrt" [collapse args])
  | indexedRoot {index args : List Node} :
    Builds symbols text (.command (some .squareRoot)) [[], index, args]
      (withChildren "\\root" [collapse args, collapse (stripped "]" index)])
  | root {index args : List Node} :
    Builds symbols text (.command (some .root)) [index, args]
      (withChildren "\\root" [collapse args, collapse (stripped "\\of" index)])
  | table {body : List Node} :
    Builds symbols text (.command (some .table)) [[], body]
      (withChildren text (stripped Word.closeBrace body))
  | generalFraction {thickness style args : List Node} {delimiter : Option Delimiter}
      {attributes : Attributes} :
    Builds symbols text (.command (some .generalFraction)) [[], [], thickness, style, args]
      { withChildren "\\genfrac" args with delimiter, attributes }
  | styledFraction {thickness style args : List Node} {switch : String}
      {delimiter : Option Delimiter} {attributes : Attributes}
      (known : Reader.styleCommand? (collapse style).flatText = some switch) :
    Builds symbols text (.command (some .generalFraction)) [[], [], thickness, style, args]
      (.braces [.leaf switch, { withChildren "\\genfrac" args with delimiter, attributes }])
  | sideScripts {left right operator : Node} {surplus : List Node} :
    Builds symbols text (.command (some .sideScripts)) [left :: right :: operator :: surplus]
      (.sideset left right operator)
  | skew {width target : Node} {surplus : List Node} {em : String} :
    Builds symbols text (.command (some .skew)) [width :: target :: surplus]
      ((withChildren "\\skew" [target]).setAttribute "width" em)
  | environment {nodes body : List Node} {alignment : Option String}
      (closed : nodes.getLast?.any (·.is (Wait.ending text)) = true)
      (taken : Alignment.take ((Word.inside? Word.environmentStart text).getD "") nodes.dropLast =
        .ok (alignment, body)) :
    Builds symbols text .environment [nodes]
      { withChildren ("\\" ++ (Word.inside? Word.environmentStart text).getD "") body with alignment }
  | leftRight {children : List Node} {delimiter : Option Delimiter}
      (closed : children.getLast?.any (·.is "\\right") = true) :
    Builds symbols text .leftRight [[], children] { withChildren "\\left" children with delimiter }
  | group {nodes : List Node} :
    Builds symbols text .group [nodes] (.braces (stripped Word.closeBrace nodes))

/-- What the stack is behind a token, made of the stack before it and of what its parts hold. -/
inductive Makes (symbols : SymbolTable) (terminator : Option String) (text : String)
    (stack : List Node) : Start → List (List Node) → Progress → Prop
  | push {start : Start} {held : List (List Node)} {node : Node}
      (built : Builds symbols text start held node) :
    Makes symbols terminator text stack start held ⟨node :: stack, false⟩
  | negation {args : List Node} :
    Makes symbols terminator text stack (.command (some .negation)) [args]
      ⟨collapse args :: .leaf "\\not" :: stack, false⟩
  | color {all nodes : List Node} {marker : Option Node} {value : String}
      (parted : Parted terminator all nodes marker) :
    Makes symbols terminator text stack (.command (some .color)) [[], all]
      ⟨marker.toList ++ (withChildren text nodes).setAttribute "mathcolor" value :: stack, true⟩
  | table {all nodes : List Node} {marker : Option Node} (parted : Parted terminator all nodes marker) :
    Makes symbols terminator text stack (.command (some .table)) [all]
      ⟨marker.toList ++ withChildren text (Node.unbraced nodes) :: stack, true⟩
  | infixFraction {fraction : InfixFraction} {held : List (List Node)} {all nodes : List Node}
      {marker : Option Node} {delimiter : Option Delimiter} {attributes : Attributes}
      (parted : Parted terminator all nodes marker) :
    Makes symbols terminator text stack (.command (some (.infixFraction fraction))) (held ++ [all])
      ⟨marker.toList ++ [{ withChildren "\\frac" [collapse stack.reverse, collapse nodes] with
        delimiter, attributes }], true⟩
  | script {kind : ScriptKind} {args : List Node} :
    Makes symbols terminator text stack (.script kind) [args]
      ⟨Script.attach kind none (stack.head?.getD (.braces [])) (collapse args) :: stack.tail, false⟩
  | limits {kind : ScriptKind} {limits operator : Node} {below args : List Node}
      (above : stack = limits :: operator :: below) (named : limits.is "\\limits" = true)
      (leaf : limits.isLeaf = true) :
    Makes symbols terminator text stack (.script kind) [args]
      ⟨Script.attach kind (some .limits) operator (collapse args) :: below, false⟩
  | prime :
    Makes symbols terminator text stack .prime []
      ⟨Script.addPrime (stack.head?.getD (.braces [])) :: stack.tail, false⟩

/-! ## Reading parts -/

namespace Reader

/-- What a part holds. -/
def part (nested : Nested) (terminator : Option String) : Part → Reader (List Node)
  | .opening text => do
    if ← nextIs text then
      let _ ← next?
      return []
    else refuse (← nextSpan) .missingArgument
  | .delimiter => do
    let _ ← next?
    return []
  | .raw => do
    let _ ← nested.raw terminator
    return []
  | .fence => do
    let _ ← fence? nested terminator
    return []
  | .nodes count => arguments nested terminator count
  | .within closing => optional nested (some closing)
  | .rest => optional nested terminator

/-- What parts hold that stand one behind the other. -/
def readParts (nested : Nested) (terminator : Option String) : List Part → Reader (List (List Node))
  | [] => return []
  | first :: rest => do
    let held ← part nested terminator first
    return held :: (← readParts nested terminator rest)

theorem readParts_nil (nested : Nested) (terminator : Option String) (c : Cursor) :
    readParts nested terminator [] c = .ok ([], c) := rfl

variable {nested : Nested} {terminator : Option String} {c mid after : Cursor}

theorem readParts_cons {first : Part} {rest : List Part} {held : List Node}
    {others : List (List Node)} (read : part nested terminator first c = .ok (held, mid))
    (behind : readParts nested terminator rest mid = .ok (others, after)) :
    readParts nested terminator (first :: rest) c = .ok (held :: others, after) := by
  rw [readParts, bind_ok read, bind_ok behind]
  rfl

theorem readParts_cons_ok {first : Part} {rest : List Part} {held : List (List Node)}
    (given : readParts nested terminator (first :: rest) c = .ok (held, after)) :
    ∃ here others mid, held = here :: others ∧ part nested terminator first c = .ok (here, mid) ∧
      readParts nested terminator rest mid = .ok (others, after) := by
  obtain ⟨here, mid, read, given⟩ := bind_ok_iff.mp given
  obtain ⟨others, last, behind, given⟩ := bind_ok_iff.mp given
  obtain ⟨rfl, rfl⟩ := pure_ok_iff.mp given
  exact ⟨here, others, mid, rfl, read, behind⟩

theorem readParts_append_ok {front back : List Part} {held : List (List Node)}
    (given : readParts nested terminator (front ++ back) c = .ok (held, after)) :
    ∃ first last mid, held = first ++ last ∧ first.length = front.length ∧
      readParts nested terminator front c = .ok (first, mid) ∧
      readParts nested terminator back mid = .ok (last, after) := by
  induction front generalizing c held with
  | nil => exact ⟨[], held, c, rfl, rfl, rfl, given⟩
  | cons part rest ih =>
    obtain ⟨here, others, between, rfl, read, behind⟩ := readParts_cons_ok given
    obtain ⟨first, last, mid, rfl, length, read', behind'⟩ := ih behind
    exact ⟨here :: first, last, mid, rfl, congrArg (· + 1) length, readParts_cons read read', behind'⟩

theorem readParts_length {parts : List Part} {held : List (List Node)}
    (given : readParts nested terminator parts c = .ok (held, after)) :
    held.length = parts.length := by
  induction parts generalizing c held with
  | nil =>
    obtain ⟨rfl, -⟩ := pure_ok_iff.mp given
    rfl
  | cons first rest ih =>
    obtain ⟨here, others, mid, rfl, -, behind⟩ := readParts_cons_ok given
    exact congrArg (· + 1) (ih behind)

theorem readParts_one {only : Part} {held : List Node}
    (read : part nested terminator only c = .ok (held, after)) :
    readParts nested terminator [only] c = .ok ([held], after) :=
  readParts_cons read (readParts_nil nested terminator after)

/-- A part of which only the place behind it counts holds nothing. -/
theorem part_of_ok {α : Type} {r : Reader α} {value : α} (read : r c = .ok (value, after)) :
    (do let _ ← r; return ([] : List Node)) c = .ok ([], after) := by
  rw [bind_ok read]
  rfl

end Reader

/-- The text of the next token. -/
def Cursor.following (c : Cursor) : Option String := c.tokens.head?.map (·.text)

namespace Reader

/-! ## Commands with a node of their own -/

/-- The parts of what a token starts have been read, and make a node. -/
def Built (symbols : SymbolTable) (nested : Nested) (terminator : Option String) (text : String)
    (start : Start) (c : Cursor) (node : Node) (after : Cursor) : Prop :=
  ∃ held, readParts nested terminator (start.parts text c.following) c = .ok (held, after) ∧
    Builds symbols text start held node

variable {symbols : SymbolTable} {nested : Nested} {terminator : Option String} {text : String}
  {c after : Cursor} {node : Node}

theorem nextIs_iff : c.tokens.head?.any (·.text == text) = true ↔ c.following = some text := by
  unfold Cursor.following
  cases c.tokens with
  | nil => simp
  | cons token rest => simp

theorem opening_taken {text : String} {nodes : List Node}
    (given : part nested terminator (.opening text) c = .ok (nodes, after)) :
    ∃ next rest, c.tokens = next :: rest ∧ next.text = text ∧ nodes = [] ∧ after = skip c next rest := by
  obtain ⟨_, _, ⟨⟩, given⟩ := bind_ok_iff.mp given
  split at given
  · rename_i follows
    obtain ⟨token, mid, taken, given⟩ := bind_ok_iff.mp given
    obtain ⟨rfl, rfl⟩ := pure_ok_iff.mp given
    rcases next?_ok taken with ⟨-, done, -⟩ | ⟨next, rest, -, left, rfl⟩
    · rw [done] at follows
      cases follows
    · rw [left] at follows
      exact ⟨next, rest, left, by simpa using follows, rfl, rfl⟩
  · exact absurd given refuseNext_ne_ok

theorem opening_ok {text : String} {token : Option Token}
    (follows : c.tokens.head?.any (·.text == text) = true) (taken : next? c = .ok (token, after)) :
    part nested terminator (.opening text) c = .ok ([], after) := by
  rw [part, bind_ok (nextIs_ok text c), if_pos follows]
  exact part_of_ok taken

/-- What a part that has been read took. -/
inductive Took (nested : Nested) (terminator : Option String) (c : Cursor) :
    Part → List Node → Cursor → Prop
  | opening {text : String} {next : Token} {rest : List Token} (left : c.tokens = next :: rest)
      (opens : next.text = text) : Took nested terminator c (.opening text) [] (skip c next rest)
  | raw {next : Token} {rest : List Token} (left : c.tokens = next :: rest) :
    Took nested terminator c .raw [] (skip c next rest)
  | noDelimiter (done : c.tokens = []) : Took nested terminator c .delimiter [] c
  | delimiter {next : Token} {rest : List Token} (left : c.tokens = next :: rest) :
    Took nested terminator c .delimiter [] (skip c next rest)
  | fence {name : Option String} {after : Cursor} (taken : fence? nested terminator c = .ok (name, after))
      (free : c.pending = none) (free' : after.pending = none) (behind : after.tokens <:+ c.tokens) :
    Took nested terminator c .fence [] after
  | nodes {count : Nat} {held : List Node} {after : Cursor}
      (read : nested.sequence terminator (.nodes count) c = .ok (held, after)) :
    Took nested terminator c (.nodes count) held after
  | within {closing : String} {held : List Node} {after : Cursor}
      (read : optional nested (some closing) c = .ok (held, after)) :
    Took nested terminator c (.within closing) held after
  | rest {held : List Node} {after : Cursor} (read : optional nested terminator c = .ok (held, after)) :
    Took nested terminator c .rest held after

theorem part_ok {first : Part} {held : List Node} (plain : nested.raw = rawArgument)
    (given : part nested terminator first c = .ok (held, after)) :
    Took nested terminator c first held after := by
  cases first with
  | opening text =>
    obtain ⟨next, rest, left, opens, rfl, rfl⟩ := opening_taken given
    exact .opening left opens
  | raw =>
    obtain ⟨text, mid, taken, given⟩ := bind_ok_iff.mp given
    obtain ⟨rfl, rfl⟩ := pure_ok_iff.mp given
    rw [plain] at taken
    obtain ⟨-, next, rest, left, -, rfl, -⟩ := rawArgument_ok taken
    exact .raw left
  | delimiter =>
    obtain ⟨token, mid, taken, given⟩ := bind_ok_iff.mp given
    obtain ⟨rfl, rfl⟩ := pure_ok_iff.mp given
    rcases next?_ok taken with ⟨-, done, rfl⟩ | ⟨next, rest, -, left, rfl⟩
    · exact .noDelimiter done
    · exact .delimiter left
  | fence =>
    obtain ⟨name, mid, taken, given⟩ := bind_ok_iff.mp given
    obtain ⟨rfl, rfl⟩ := pure_ok_iff.mp given
    obtain ⟨free, free', behind⟩ := fence?_ok plain taken
    exact .fence taken free free' behind
  | nodes count => exact .nodes given
  | within closing => exact .within given
  | rest => exact .rest given

theorem bracketed_ok {labelled : List Node → Node → Node} {bare : Node → Node}
    (given : bracketed nested terminator labelled bare c = .ok (node, after)) :
    (c.following = some "[" ∧ ∃ label args,
      readParts nested terminator [.opening "[", .within "]", .nodes 1] c =
        .ok ([[], label, args], after) ∧
      node = labelled (stripped "]" label) (Node.collapse args)) ∨
    (c.following ≠ some "[" ∧ ∃ args,
      readParts nested terminator [.nodes 1] c = .ok ([args], after) ∧
      node = bare (Node.collapse args)) := by
  unfold bracketed at given
  obtain ⟨_, _, ⟨⟩, given⟩ := bind_ok_iff.mp given
  split at given
  · rename_i follows
    obtain ⟨_, behind, taken, given⟩ := bind_ok_iff.mp given
    obtain ⟨_, last, grouped, given⟩ := bind_ok_iff.mp given
    obtain ⟨_, _, argued, given⟩ := bind_ok_iff.mp given
    obtain ⟨rfl, rfl⟩ := pure_ok_iff.mp given
    obtain ⟨label, read, rfl⟩ := group_ok grouped
    obtain ⟨args, read', rfl⟩ := argument_ok argued
    refine .inl ⟨nextIs_iff.mp follows, label, args, ?_, rfl⟩
    exact readParts_cons (opening_ok follows taken) (readParts_cons read (readParts_one read'))
  · rename_i other
    obtain ⟨_, _, argued, given⟩ := bind_ok_iff.mp given
    obtain ⟨rfl, rfl⟩ := pure_ok_iff.mp given
    obtain ⟨args, read, rfl⟩ := argument_ok argued
    exact .inr ⟨fun follows => other (nextIs_iff.mpr follows), args, readParts_one read, rfl⟩

theorem labelledArrow_ok (given : labelledArrow nested terminator text c = .ok (node, after)) :
    Built symbols nested terminator text (.command (some .labelledArrow)) c node after := by
  unfold Built Start.parts Start.shapeParts
  rcases bracketed_ok given with ⟨follows, label, args, read, rfl⟩ | ⟨other, args, read, rfl⟩
  · rw [if_pos follows]
    exact ⟨_, read, .labelledArrow⟩
  · rw [if_neg other]
    exact ⟨_, read, .bareArrow⟩

theorem squareRoot_ok (given : squareRoot nested terminator c = .ok (node, after)) :
    Built symbols nested terminator text (.command (some .squareRoot)) c node after := by
  unfold Built Start.parts Start.shapeParts
  rcases bracketed_ok given with ⟨follows, index, args, read, rfl⟩ | ⟨other, args, read, rfl⟩
  · rw [if_pos follows]
    refine ⟨_, read, ?_⟩
    split
    · rename_i empty
      exact .emptyIndex (List.isEmpty_iff.mp empty)
    · exact .indexedRoot
  · rw [if_neg other]
    exact ⟨_, read, .squareRoot⟩

theorem space_ok (given : space nested terminator text c = .ok (node, after)) :
    Built symbols nested terminator text (.command (some .space)) c node after := by
  unfold space at given
  obtain ⟨_, _, argued, given⟩ := bind_ok_iff.mp given
  obtain ⟨args, read, rfl⟩ := argument_ok argued
  split at given
  · exact absurd given refuseLast_ne_ok
  · obtain ⟨rfl, rfl⟩ := pure_ok_iff.mp given
    exact ⟨_, readParts_one read, .space⟩

theorem root_ok (given : root nested terminator c = .ok (node, after)) :
    Built symbols nested terminator text (.command (some .root)) c node after := by
  unfold root at given
  obtain ⟨_, mid, grouped, given⟩ := bind_ok_iff.mp given
  obtain ⟨_, _, argued, given⟩ := bind_ok_iff.mp given
  obtain ⟨rfl, rfl⟩ := pure_ok_iff.mp given
  obtain ⟨index, read, rfl⟩ := group_ok grouped
  obtain ⟨args, read', rfl⟩ := argument_ok argued
  exact ⟨_, readParts_cons read (readParts_one read'), .root⟩

theorem generalFraction_ok (given : generalFraction nested terminator c = .ok (node, after)) :
    Built symbols nested terminator text (.command (some .generalFraction)) c node after := by
  unfold generalFraction at given
  obtain ⟨opening, _, first, given⟩ := bind_ok_iff.mp given
  obtain ⟨closing, _, second, given⟩ := bind_ok_iff.mp given
  obtain ⟨_, _, third, given⟩ := bind_ok_iff.mp given
  obtain ⟨_, _, fourth, given⟩ := bind_ok_iff.mp given
  obtain ⟨args, _, fifth, given⟩ := bind_ok_iff.mp given
  obtain ⟨rfl, rfl⟩ := pure_ok_iff.mp given
  obtain ⟨thickness, read, rfl⟩ := argument_ok third
  obtain ⟨style, read', rfl⟩ := argument_ok fourth
  refine ⟨_, readParts_cons (part_of_ok first) (readParts_cons (part_of_ok second)
    (readParts_cons read (readParts_cons read' (readParts_one fifth)))), ?_⟩
  split
  · rename_i switch known
    split
    · exact .styledFraction known
    · exact .styledFraction known
  · split
    · exact .generalFraction
    · exact .generalFraction

theorem sideScripts_ok (given : sideScripts nested terminator c = .ok (node, after)) :
    Built symbols nested terminator text (.command (some .sideScripts)) c node after := by
  unfold sideScripts at given
  obtain ⟨args, _, read, given⟩ := bind_ok_iff.mp given
  split at given
  · obtain ⟨rfl, rfl⟩ := pure_ok_iff.mp given
    exact ⟨_, readParts_one read, .sideScripts⟩
  · exact absurd given refuseLast_ne_ok

theorem skew_ok {span : Span} (given : skew nested terminator span c = .ok (node, after)) :
    Built symbols nested terminator text (.command (some .skew)) c node after := by
  unfold skew at given
  obtain ⟨args, _, read, given⟩ := bind_ok_iff.mp given
  split at given
  · rename_i width target surplus
    dsimp only at given
    cases em : (Skew.integer? width.flatText).bind Skew.width? with
    | some em' =>
      rw [em] at given
      obtain ⟨rfl, rfl⟩ := pure_ok_iff.mp given
      exact ⟨_, readParts_one read, .skew⟩
    | none =>
      rw [em] at given
      exact absurd given refuse_ne_ok
  · exact absurd given refuseLast_ne_ok

theorem environment_ok {span : Span} (given : environment nested span text c = .ok (node, after)) :
    Built symbols nested terminator text .environment c node after := by
  unfold environment at given
  obtain ⟨nodes, _, read, given⟩ := bind_ok_iff.mp given
  split at given
  · rename_i closed
    cases taken : Alignment.take ((Word.inside? Word.environmentStart text).getD "")
        nodes.dropLast with
    | ok result =>
      rw [taken] at given
      obtain ⟨rfl, rfl⟩ := pure_ok_iff.mp given
      exact ⟨_, readParts_one read, .environment closed taken⟩
    | error text =>
      rw [taken] at given
      exact absurd given refuse_ne_ok
  · exact absurd given refuse_ne_ok

theorem leftRight_ok {span : Span} (given : leftRight nested span c = .ok (node, after)) :
    Built symbols nested terminator text .leftRight c node after := by
  unfold leftRight at given
  obtain ⟨delimiter, _, taken, given⟩ := bind_ok_iff.mp given
  split at given
  · exact absurd given refuse_ne_ok
  · obtain ⟨children, _, read, given⟩ := bind_ok_iff.mp given
    split at given
    · rename_i closed
      obtain ⟨rfl, rfl⟩ := pure_ok_iff.mp given
      exact ⟨_, readParts_cons (part_of_ok taken) (readParts_one read), .leftRight closed⟩
    · exact absurd given refuse_ne_ok

/-! ## Commands that change the stack -/

/-- The parts of what a token starts have been read, and make nodes on a stack. -/
def Made (symbols : SymbolTable) (nested : Nested) (terminator : Option String) (text : String)
    (stack : List Node) (start : Start) (c : Cursor) (progress : Progress) (after : Cursor) : Prop :=
  ∃ held, readParts nested terminator (start.parts text c.following) c = .ok (held, after) ∧
    Makes symbols terminator text stack start held progress

variable {stack : List Node} {progress : Progress}

theorem push_ok {r : Reader Node} {start : Start}
    (given : (r >>= fun node => pure ⟨node :: stack, false⟩) c = .ok (progress, after))
    (built : ∀ {node}, r c = .ok (node, after) →
      Built symbols nested terminator text start c node after) :
    Made symbols nested terminator text stack start c progress after := by
  obtain ⟨node, _, read, given⟩ := bind_ok_iff.mp given
  obtain ⟨rfl, rfl⟩ := pure_ok_iff.mp given
  obtain ⟨held, read, builds⟩ := built read
  exact ⟨held, read, .push builds⟩

theorem script_ok {kind : ScriptKind} {span : Span}
    (given : script nested terminator kind span stack c = .ok (progress, after)) :
    Made symbols nested terminator text stack (.script kind) c progress after := by
  unfold script at given
  cases conflict : Script.conflict? kind (stack.head?.getD (.braces [])) with
  | some cause =>
    rw [conflict] at given
    exact absurd given refuse_ne_ok
  | none =>
    rw [conflict] at given
    dsimp only at given
    split at given
    · rename_i limits
      rw [Bool.and_eq_true] at limits
      match stack, given, limits with
      | [], _, limits => exact absurd limits.1 (by decide)
      | [_], given, _ => exact absurd given refuse_ne_ok
      | first :: operator :: below, given, limits =>
        dsimp only [List.tail_cons] at given
        split at given
        · obtain ⟨_, _, argued, given⟩ := bind_ok_iff.mp given
          obtain ⟨rfl, rfl⟩ := pure_ok_iff.mp given
          obtain ⟨args, read, rfl⟩ := argument_ok argued
          exact ⟨_, readParts_one read, .limits rfl limits.1 limits.2⟩
        · exact absurd given refuse_ne_ok
    · obtain ⟨_, _, argued, given⟩ := bind_ok_iff.mp given
      obtain ⟨rfl, rfl⟩ := pure_ok_iff.mp given
      obtain ⟨args, read, rfl⟩ := argument_ok argued
      exact ⟨_, readParts_one read, .script⟩

theorem negation_ok (given : negation symbols nested terminator stack c = .ok (progress, after)) :
    Made symbols nested terminator text stack (.command (some .negation)) c progress after := by
  unfold negation at given
  obtain ⟨target, _, argued, given⟩ := bind_ok_iff.mp given
  obtain ⟨args, read, rfl⟩ := argument_ok argued
  cases known : if (Node.collapse args).isLeaf then negated? symbols (Node.collapse args).token else none with
  | some negated =>
    rw [known] at given
    obtain ⟨rfl, rfl⟩ := pure_ok_iff.mp given
    split at known
    · rename_i leaf
      exact ⟨_, readParts_one read, .push (.negated known leaf)⟩
    · cases known
  | none =>
    rw [known] at given
    obtain ⟨rfl, rfl⟩ := pure_ok_iff.mp given
    exact ⟨_, readParts_one read, .negation⟩

theorem color_ok (given : color nested terminator text stack c = .ok (progress, after)) :
    Made symbols nested terminator text stack (.command (some .color)) c progress after := by
  unfold color at given
  obtain ⟨value, _, taken, given⟩ := bind_ok_iff.mp given
  obtain ⟨⟨nodes, marker⟩, _, read, given⟩ := bind_ok_iff.mp given
  obtain ⟨all, read, parted⟩ := remainder_ok read
  obtain ⟨rfl, rfl⟩ := pure_ok_iff.mp given
  exact ⟨_, readParts_cons (part_of_ok taken) (readParts_one read), .color parted⟩

theorem table_ok (given : table nested terminator text stack c = .ok (progress, after)) :
    Made symbols nested terminator text stack (.command (some .table)) c progress after := by
  unfold Made Start.parts Start.shapeParts
  unfold table at given
  obtain ⟨_, _, ⟨⟩, given⟩ := bind_ok_iff.mp given
  split at given
  · rename_i follows
    rw [if_pos (nextIs_iff.mp follows)]
    obtain ⟨_, _, taken, given⟩ := bind_ok_iff.mp given
    obtain ⟨_, _, grouped, given⟩ := bind_ok_iff.mp given
    obtain ⟨rfl, rfl⟩ := pure_ok_iff.mp given
    obtain ⟨body, read, rfl⟩ := group_ok grouped
    exact ⟨_, readParts_cons (opening_ok follows taken) (readParts_one read), .push .table⟩
  · rename_i other
    rw [if_neg fun follows => other (nextIs_iff.mpr follows)]
    obtain ⟨⟨nodes, marker⟩, _, read, given⟩ := bind_ok_iff.mp given
    obtain ⟨all, read, parted⟩ := remainder_ok read
    obtain ⟨rfl, rfl⟩ := pure_ok_iff.mp given
    exact ⟨_, readParts_one read, .table parted⟩

theorem infixFences_ok {fraction : InfixFraction} {delimiter : Option Delimiter} {mid : Cursor}
    (given : infixFences nested terminator fraction c = .ok (delimiter, mid)) :
    ∃ held, readParts nested terminator (if fraction.readsFences then [.fence, .fence] else []) c =
      .ok (held, mid) := by
  unfold infixFences at given
  split at given
  · rename_i reads
    obtain ⟨opening, _, first, given⟩ := bind_ok_iff.mp given
    obtain ⟨closing, _, second, given⟩ := bind_ok_iff.mp given
    obtain ⟨rfl, rfl⟩ := pure_ok_iff.mp given
    rw [if_pos reads]
    exact ⟨_, readParts_cons (part_of_ok first) (readParts_one (part_of_ok second))⟩
  · rename_i reads
    obtain ⟨rfl, rfl⟩ := pure_ok_iff.mp given
    rw [if_neg reads]
    exact ⟨[], rfl⟩

theorem infixBar_ok {fraction : InfixFraction} {attributes : Attributes} {mid : Cursor}
    (given : infixBar nested terminator fraction c = .ok (attributes, mid)) :
    ∃ held, readParts nested terminator (if fraction.bar = .argument then [.nodes 1] else []) c =
      .ok (held, mid) := by
  unfold infixBar at given
  cases bar : fraction.bar with
  | natural | zero =>
    rw [bar] at given
    obtain ⟨rfl, rfl⟩ := pure_ok_iff.mp given
    exact ⟨[], rfl⟩
  | argument =>
    rw [bar] at given
    obtain ⟨_, _, argued, given⟩ := bind_ok_iff.mp given
    obtain ⟨rfl, rfl⟩ := pure_ok_iff.mp given
    obtain ⟨args, read, -⟩ := argument_ok argued
    exact ⟨[args], readParts_one read⟩

theorem readParts_append {front back : List Part} {held others : List (List Node)} {mid : Cursor}
    (read : readParts nested terminator front c = .ok (held, mid))
    (behind : readParts nested terminator back mid = .ok (others, after)) :
    readParts nested terminator (front ++ back) c = .ok (held ++ others, after) := by
  induction front generalizing c held with
  | nil =>
    obtain ⟨rfl, rfl⟩ := pure_ok_iff.mp read
    exact behind
  | cons first rest ih =>
    obtain ⟨here, others', between, rfl, read, read'⟩ := readParts_cons_ok read
    exact readParts_cons read (ih read')

theorem infixFraction_ok {fraction : InfixFraction} {span : Span}
    (given : infixFraction nested terminator fraction span stack c = .ok (progress, after)) :
    Made symbols nested terminator text stack (.command (some (.infixFraction fraction))) c progress
      after := by
  unfold infixFraction at given
  obtain ⟨delimiter, _, fenced, given⟩ := bind_ok_iff.mp given
  obtain ⟨attributes, _, barred, given⟩ := bind_ok_iff.mp given
  obtain ⟨⟨under, marker⟩, _, rested, given⟩ := bind_ok_iff.mp given
  obtain ⟨fences, fenced⟩ := infixFences_ok fenced
  obtain ⟨bar, barred⟩ := infixBar_ok barred
  obtain ⟨all, read, parted⟩ := remainder_ok rested
  dsimp only at given
  split at given
  · exact absurd given refuse_ne_ok
  · split at given
    · exact absurd given refuse_ne_ok
    · obtain ⟨rfl, rfl⟩ := pure_ok_iff.mp given
      exact ⟨_, readParts_append (readParts_append fenced barred) (readParts_one read),
        .infixFraction parted⟩

/-! ## All commands -/

theorem command_ok {token : Token}
    (given : command symbols nested terminator token stack c = .ok (progress, after)) :
    Made symbols nested terminator token.text stack (.command (shape? symbols token.text)) c progress
      after := by
  unfold command at given
  dsimp only at given
  cases found : shape? symbols token.text with
  | none =>
    rw [found] at given
    obtain ⟨rfl, rfl⟩ := pure_ok_iff.mp given
    exact ⟨[], rfl, .push .leaf⟩
  | some shape =>
    rw [found] at given
    cases shape with
    | nodes count =>
      obtain ⟨args, _, read, given⟩ := bind_ok_iff.mp given
      obtain ⟨rfl, rfl⟩ := pure_ok_iff.mp given
      exact ⟨_, readParts_one read, .push .nodes⟩
    | reversed =>
      obtain ⟨args, _, read, given⟩ := bind_ok_iff.mp given
      obtain ⟨rfl, rfl⟩ := pure_ok_iff.mp given
      exact ⟨_, readParts_one read, .push .reversed⟩
    | negation => exact negation_ok given
    | labelledArrow => exact push_ok given labelledArrow_ok
    | space => exact push_ok given space_ok
    | color => exact color_ok given
    | style =>
      obtain ⟨value, _, taken, given⟩ := bind_ok_iff.mp given
      obtain ⟨_, _, argued, given⟩ := bind_ok_iff.mp given
      obtain ⟨rfl, rfl⟩ := pure_ok_iff.mp given
      obtain ⟨args, read, rfl⟩ := argument_ok argued
      exact ⟨_, readParts_cons (part_of_ok taken) (readParts_one read), .push .style⟩
    | rawText =>
      obtain ⟨value, _, taken, given⟩ := bind_ok_iff.mp given
      obtain ⟨rfl, rfl⟩ := pure_ok_iff.mp given
      exact ⟨_, readParts_one (part_of_ok taken), .push .rawText⟩
    | link =>
      obtain ⟨target, _, taken, given⟩ := bind_ok_iff.mp given
      obtain ⟨args, _, read, given⟩ := bind_ok_iff.mp given
      obtain ⟨rfl, rfl⟩ := pure_ok_iff.mp given
      exact ⟨_, readParts_cons (part_of_ok taken) (readParts_one read), .push .link⟩
    | infixFraction fraction => exact infixFraction_ok given
    | squareRoot => exact push_ok given squareRoot_ok
    | root => exact push_ok given root_ok
    | table => exact table_ok given
    | generalFraction => exact push_ok given generalFraction_ok
    | sideScripts => exact push_ok given sideScripts_ok
    | skew => exact push_ok given skew_ok

/-- A token that has been read has read its parts, and has made its nodes of what they hold. -/
theorem token_ok {token : Token}
    (given : Reader.token symbols nested terminator token stack c = .ok (progress, after)) :
    Made symbols nested terminator token.text stack (.of symbols token.text) c progress after := by
  unfold Reader.token at given
  dsimp only at given
  split at given
  · exact absurd given refuse_ne_ok
  split at given
  · exact absurd given refuse_ne_ok
  unfold Start.of
  split at given
  · rename_i starts
    rw [if_pos starts]
    exact push_ok given environment_ok
  rename_i starts
  rw [if_neg starts]
  split at given
  · rename_i left
    rw [if_pos (beq_iff_eq.mp left)]
    exact push_ok given leftRight_ok
  rename_i left
  rw [if_neg (by simpa using left)]
  split at given
  · rename_i opens
    obtain ⟨_, _, grouped, given⟩ := bind_ok_iff.mp given
    obtain ⟨rfl, rfl⟩ := pure_ok_iff.mp given
    obtain ⟨nodes, read, rfl⟩ := group_ok grouped
    rw [if_pos (beq_iff_eq.mp opens)]
    exact ⟨_, readParts_one read, .push .group⟩
  rename_i opens
  rw [if_neg (by simpa using opens)]
  split at given
  · rename_i sub
    rw [if_pos (beq_iff_eq.mp sub)]
    exact script_ok given
  rename_i sub
  rw [if_neg (by simpa using sub)]
  split at given
  · rename_i sup
    rw [if_pos (beq_iff_eq.mp sup)]
    exact script_ok given
  rename_i sup
  rw [if_neg (by simpa using sup)]
  split at given
  · rename_i prime
    obtain ⟨rfl, rfl⟩ := pure_ok_iff.mp given
    rw [if_pos (beq_iff_eq.mp prime)]
    exact ⟨[], rfl, .prime⟩
  · rename_i prime
    rw [if_neg (by simpa using prime)]
    exact command_ok given

end Reader

end FormulaMarkup

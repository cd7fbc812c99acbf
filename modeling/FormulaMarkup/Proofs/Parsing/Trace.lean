import FormulaMarkup.Proofs.Parsing.Parts
import FormulaMarkup.Proofs.Parsing.Protocol

/-!
Traces of parses: what is read that becomes no node of the tree, what stands there twice, and the
pairs of stretching delimiters that are opened and closed, in the order of the source. A trace runs
along the readers, part by part, and hands what a nested sequence reads to the trace of that sequence.
-/
namespace FormulaMarkup

/-! ## Events -/

/-- A `\left` that is read as a command, or a `\right` that ends a sequence. -/
inductive Fence where
  | opens (token : Token)
  | closes (token : Token)
  deriving Repr, DecidableEq

/-- Why something that is read becomes no node of the tree. -/
inductive Reason where
  /-- It is an argument that is kept as it is written. -/
  | raw
  /-- It is a delimiter. -/
  | delimiter
  /-- It is a width, a thickness or a style, of which only the text counts. -/
  | measure
  /-- It is a part of the alignment of an environment. -/
  | alignment
  /-- It decorates an operator and is no script in a group of its own, or is the base of one. -/
  | decoration
  /-- It is more than a command takes, as a negation gives two nodes. -/
  | surplus
  /-- It reads like the token that ends the sequence, and holds something. -/
  | standIn
  deriving Repr, DecidableEq

inductive Event where
  | fence (pair : Fence)
  | setAside (reason : Reason) (node : Node)
  /-- A node stands in the tree twice. -/
  | copied (node : Node)
  deriving Repr, DecidableEq

namespace Event

def fence? : Event → Option Fence
  | fence pair => some pair
  | _ => none

def setAside? : Event → Option Node
  | setAside _ node => some node
  | _ => none

def copied? : Event → Option Node
  | copied node => some node
  | _ => none

def setAsideAll (reason : Reason) (nodes : List Node) : List Event :=
  nodes.map (setAside reason)

end Event

/-- The pairs of delimiters in a trace, as they are opened and closed. -/
def fences (events : List Event) : List Fence := events.filterMap Event.fence?

/-- The nodes that a trace sets aside. -/
def asides (events : List Event) : List Node := events.filterMap Event.setAside?

/-- The nodes of which there is a copy. -/
def copies (events : List Event) : List Node := events.filterMap Event.copied?

section

variable (front back : List Event) (pair : Fence) (reason : Reason) (node : Node) (nodes : List Node)

@[simp] theorem fences_nil : fences [] = [] := rfl

@[simp] theorem fences_fence : fences (.fence pair :: back) = pair :: fences back := rfl

@[simp] theorem fences_append : fences (front ++ back) = fences front ++ fences back :=
  List.filterMap_append

@[simp] theorem fences_setAsideAll : fences (Event.setAsideAll reason nodes) = [] := by
  induction nodes with
  | nil => rfl
  | cons first rest ih => exact ih

@[simp] theorem fences_copied : fences (.copied node :: back) = fences back := rfl

@[simp] theorem asides_nil : asides [] = [] := rfl

@[simp] theorem asides_fence : asides (.fence pair :: back) = asides back := rfl

@[simp] theorem asides_append : asides (front ++ back) = asides front ++ asides back :=
  List.filterMap_append

@[simp] theorem asides_setAsideAll : asides (Event.setAsideAll reason nodes) = nodes := by
  induction nodes with
  | nil => rfl
  | cons first rest ih => exact congrArg (first :: ·) ih

@[simp] theorem asides_copied : asides (.copied node :: back) = asides back := rfl

@[simp] theorem copies_nil : copies [] = [] := rfl

@[simp] theorem copies_fence : copies (.fence pair :: back) = copies back := rfl

@[simp] theorem copies_append : copies (front ++ back) = copies front ++ copies back :=
  List.filterMap_append

@[simp] theorem copies_setAsideAll : copies (Event.setAsideAll reason nodes) = [] := by
  induction nodes with
  | nil => rfl
  | cons first rest ih => exact ih

@[simp] theorem copies_copied : copies (.copied node :: back) = node :: copies back := rfl

end

/-! ## What a command makes no nodes of -/

/-- A node at the end of a sequence that is taken for the token that ends it, and is no leaf. -/
def standIn (closing : String) (nodes : List Node) : List Node :=
  (nodes.getLast?.filter fun node => node.is closing && !node.isLeaf).toList

/-- The nodes in front of the cells of an environment. -/
def Alignment.nodes (name : String) (body : List Node) : List Node :=
  match Alignment.take name body with
  | .ok (_, cells) => body.take (body.length - cells.length)
  | .error _ => []

/-- What a decoration holds besides its scripts. -/
def sideRest (node : Node) : List Node :=
  match node.children with
  | some [only] =>
    if node.is Word.braces && (only.is "_" || only.is "^" || only.is Script.both) then
      only.childList.take 1
    else [node]
  | _ => [node]

/-- What a command sets aside of what its parts hold, and what it copies. -/
def Start.events (text : String) : Start → List (List Node) → List Event
  | environment, [nodes] =>
    Event.setAsideAll .standIn (standIn (Wait.ending text) nodes) ++
      Event.setAsideAll .alignment
        (Alignment.nodes ((Word.inside? Word.environmentStart text).getD "") nodes.dropLast)
  | group, [nodes] => Event.setAsideAll .standIn (standIn Word.closeBrace nodes)
  | command (some .labelledArrow), [_, label, _] => Event.setAsideAll .standIn (standIn "]" label)
  | command (some .squareRoot), [_, index, _] => Event.setAsideAll .standIn (standIn "]" index)
  | command (some .root), [index, _] => Event.setAsideAll .standIn (standIn "\\of" index)
  | command (some .table), [_, body] => Event.setAsideAll .standIn (standIn Word.closeBrace body)
  | command (some .space), held => Event.setAsideAll .measure held.flatten
  | command (some (.infixFraction _)), held => Event.setAsideAll .measure held.dropLast.flatten
  | command (some .generalFraction), held => Event.setAsideAll .measure held.dropLast.flatten
  | command (some .sideScripts), [left :: right :: operator :: surplus] =>
    .copied operator :: (Event.setAsideAll .decoration (sideRest left ++ sideRest right) ++
      Event.setAsideAll .surplus surplus)
  | command (some .skew), [width :: _ :: surplus] =>
    Event.setAsideAll .measure [width] ++ Event.setAsideAll .surplus surplus
  | _, _ => []

theorem fences_events (start : Start) (text : String) (held : List (List Node)) :
    fences (start.events text held) = [] := by
  unfold Start.events
  split <;> simp

/-! ## Traces -/

namespace Reader

variable (symbols : SymbolTable) (nested : Nested)
  (inner : Option String → Limit → Cursor → List Event) (terminator : Option String)

/-- The trace of a part. -/
def partTrace (c : Cursor) : Part → List Event
  | .opening _ => []
  | .raw => Event.setAsideAll .raw (c.tokens.head?.toList.map fun token => .leaf token.text)
  | .delimiter => Event.setAsideAll .delimiter (c.tokens.head?.toList.map fun token => .leaf token.text)
  | .fence =>
    match fence? nested terminator c with
    | .ok (_, after) => Event.setAsideAll .delimiter ((c.taken after).map .leaf)
    | .error _ => []
  | .nodes count => inner terminator (.nodes count) c
  | .within closing => inner (some closing) .unbounded c
  | .rest => inner terminator .unbounded c

/-- The trace of parts that stand one behind the other. -/
def partsTrace : List Part → Cursor → List Event
  | [], _ => []
  | first :: rest, c =>
    partTrace nested inner terminator c first ++
      match part nested terminator first c with
      | .ok (_, mid) => partsTrace rest mid
      | .error _ => []

/-- The trace of what a token starts, from behind the token. -/
def tokenTrace (token : Token) (c : Cursor) : List Event :=
  let start := Start.of symbols token.text
  let parts := start.parts token.text c.following
  (if start = .leftRight then [.fence (.opens token)] else []) ++
    partsTrace nested inner terminator parts c ++
    match readParts nested terminator parts c with
    | .ok (held, _) => start.events token.text held
    | .error _ => []

/-- The trace of the token that ends a sequence. A `\right` takes its delimiter along. -/
def markerTrace (token : Token) (rest : List Token) : List Event :=
  if token.text = "\\right" then
    .fence (.closes token) ::
      Event.setAsideAll .delimiter (rest.head?.toList.map fun delimiter => .leaf delimiter.text)
  else []

/-- The trace of a sequence. -/
def trace (symbols : SymbolTable) (terminator : Option String) (limit : Limit) :
    Nat → List Node → Cursor → List Event
  | 0, _, _ => []
  | budget + 1, stack, c =>
    match c.pending, c.tokens with
    | none, next :: rest =>
      if some next.text = terminator then
        if limit = .unbounded then markerTrace next rest else []
      else
        let inner := fun terminator limit => trace symbols terminator limit budget []
        tokenTrace symbols (nestedAt symbols budget) inner terminator next (skip c next rest) ++
          match token symbols (nestedAt symbols budget) terminator next stack (skip c next rest) with
          | .ok (progress, mid) =>
            if progress.finished || limit.reachedBy progress.stack.length then []
            else trace symbols terminator limit budget progress.stack mid
          | .error _ => []
    | _, _ => []

/-! ## Traces of what has been read -/

variable {symbols nested inner terminator} {limit : Limit} {budget : Nat} {stack : List Node}
  {c mid after : Cursor}

theorem partsTrace_cons {first : Part} {rest : List Part} {held : List Node}
    (read : part nested terminator first c = .ok (held, mid)) :
    partsTrace nested inner terminator (first :: rest) c =
      partTrace nested inner terminator c first ++ partsTrace nested inner terminator rest mid := by
  rw [partsTrace, read]

theorem partsTrace_append {front back : List Part} {held : List (List Node)}
    (read : readParts nested terminator front c = .ok (held, mid)) :
    partsTrace nested inner terminator (front ++ back) c =
      partsTrace nested inner terminator front c ++ partsTrace nested inner terminator back mid := by
  induction front generalizing c held with
  | nil =>
    obtain ⟨-, rfl⟩ := pure_ok_iff.mp read
    rfl
  | cons first rest ih =>
    obtain ⟨here, others, between, -, read, behind⟩ := readParts_cons_ok read
    rw [List.cons_append, partsTrace_cons read, partsTrace_cons read, ih behind, List.append_assoc]

theorem tokenTrace_ok {token : Token} {start : Start} {held : List (List Node)}
    (started : Start.of symbols token.text = start)
    (read : readParts nested terminator (start.parts token.text c.following) c = .ok (held, after)) :
    tokenTrace symbols nested inner terminator token c =
      (if start = .leftRight then [.fence (.opens token)] else []) ++
        partsTrace nested inner terminator (start.parts token.text c.following) c ++
          start.events token.text held := by
  subst started
  unfold tokenTrace
  dsimp only
  rw [read]

/-- The traces of nested sequences. -/
def innerTrace (symbols : SymbolTable) (budget : Nat) (terminator : Option String) (limit : Limit) :
    Cursor → List Event :=
  trace symbols terminator limit budget []

theorem trace_owed {marker : Node} (owes : c.pending = some marker) :
    trace symbols terminator limit (budget + 1) stack c = [] := by
  rw [trace, owes]

theorem trace_ended (free : c.pending = none) (done : c.tokens = []) :
    trace symbols terminator limit budget stack c = [] := by
  cases budget with
  | zero => rfl
  | succ budget => rw [trace, free, done]

/-- Nested readers, and the traces of what they read. -/
structure Traced (nested : Nested) (inner : Option String → Limit → Cursor → List Event) : Prop where
  raw : nested.raw = rawArgument
  /-- Where nothing is left, nothing is read. -/
  ended : ∀ {terminator c}, c.pending = none → c.tokens = [] → inner terminator .unbounded c = []

theorem traced_nestedAt (symbols : SymbolTable) (budget : Nat) :
    Traced (nestedAt symbols budget) (innerTrace symbols budget) :=
  ⟨rfl, trace_ended⟩

theorem trace_closed {next : Token} {rest : List Token} (free : c.pending = none)
    (left : c.tokens = next :: rest) (closes : some next.text = terminator) :
    trace symbols terminator .unbounded (budget + 1) stack c = markerTrace next rest := by
  rw [trace, free, left]
  simp only [closes, if_true]

theorem trace_last {next : Token} {rest : List Token} {progress : Progress} (free : c.pending = none)
    (left : c.tokens = next :: rest) (other : some next.text ≠ terminator)
    (read : Reader.token symbols (nestedAt symbols budget) terminator next stack (skip c next rest) =
      .ok (progress, mid))
    (full : progress.finished || limit.reachedBy progress.stack.length) :
    trace symbols terminator limit (budget + 1) stack c =
      tokenTrace symbols (nestedAt symbols budget) (innerTrace symbols budget) terminator next
        (skip c next rest) := by
  rw [trace, free, left]
  simp only [other, if_false, read, full, if_true, List.append_nil]
  rfl

theorem trace_more {next : Token} {rest : List Token} {progress : Progress} (free : c.pending = none)
    (left : c.tokens = next :: rest) (other : some next.text ≠ terminator)
    (read : Reader.token symbols (nestedAt symbols budget) terminator next stack (skip c next rest) =
      .ok (progress, mid))
    (space : (progress.finished || limit.reachedBy progress.stack.length) = false) :
    trace symbols terminator limit (budget + 1) stack c =
      tokenTrace symbols (nestedAt symbols budget) (innerTrace symbols budget) terminator next
        (skip c next rest) ++ trace symbols terminator limit budget progress.stack mid := by
  rw [trace, free, left]
  simp only [other, if_false, read, space, Bool.false_eq_true]
  rfl

end Reader

namespace Formula

/-- The trace of a source. -/
def trace (symbols : SymbolTable) (tokens : List Token) (stop : Nat) : List Event :=
  Reader.trace symbols none .unbounded (tokens.length + 1) [] { tokens, last := ⟨0, 0⟩, stop }

/-- A source that is read is read to its end. -/
theorem ofTokens?_whole {symbols : SymbolTable} {tokens : List Token} {stop : Nat}
    {nodes : List Node} {after : Cursor}
    (given : Reader.sequence symbols none .unbounded (tokens.length + 1) false []
      { tokens, last := ⟨0, 0⟩, stop } = .ok (nodes, after)) :
    after.pending = none ∧ after.tokens = [] := by
  have fits : tokens.length < tokens.length + 1 := Nat.lt_succ_self _
  have same : Reader.Same
      (Reader.watchedCall none .unbounded
        (Reader.watchedSequence symbols none .unbounded (tokens.length + 1) false []))
      (Reader.sequence symbols none .unbounded (tokens.length + 1) false [])
      { tokens, last := ⟨0, 0⟩, stop } _ :=
    Reader.watchedCall_same symbols fits Wait.closing_none rfl
  have ends := same.2
  rw [Reader.Ends, given] at ends
  exact ends.source

end Formula

end FormulaMarkup

import FormulaMarkup.Proofs.Bytes.Lexing
import FormulaMarkup.Proofs.Parsing.Protocol

/-!
Parsing with indices. Alignments, scripts and table bodies are taken from lists of nodes by place: a
list has to have the places that are asked for. A strict parse fails where one has not, and where its
budget is used up. Main statement: `parse?_eq`, by which the strict parse of any source is the plain
one.
-/
namespace FormulaMarkup

open Bytes (drop?)

/-! ## Nodes by place -/

/-- The items of a list from one place up to another. -/
def range? {α : Type} (items : List α) (start stop : Nat) : Option (List α) :=
  if start ≤ stop ∧ stop ≤ items.length then some ((items.take stop).drop start) else none

/-- A list with an item put at a place, which may be its end. -/
def insertAt? {α : Type} (items : List α) (place : Nat) (item : α) : Option (List α) :=
  if place ≤ items.length then some (items.take place ++ item :: items.drop place) else none

namespace Alignment

/-- The tokens of the group that a body starts with, if it starts with one. -/
def specifier? (body : List Node) : Option String :=
  (body.head?.filter (·.is Word.braces)).map fun group => Node.tokensOf group.childList

def take? (name : String) (body : List Node) : Option (Except String (Option String × List Node)) := do
  if name.toList.getLast? == some '*' && body.head?.any (·.is "[") then
    match body.findIdx? (·.is "]") with
    | none => return .error "["
    | some close =>
      let text := Node.tokensOf (← range? body 1 close)
      if isValid text then return .ok (some text, ← drop? body (close + 1))
      else return .error text
  else if required.contains name then
    let text := (specifier? body).getD ""
    if isValid text then return .ok (some text, ← drop? body 1) else return .error text
  else
    match specifier? body with
    | some text =>
      if isValid text then return .ok (some text, ← drop? body 1) else return .ok (none, body)
    | none => return .ok (none, body)

theorem drop_of_le {α : Type} {items : List α} {count : Nat} (within : count ≤ items.length) :
    drop? items count = some (items.drop count) :=
  if_pos within

theorem specifier?_cons (first : Node) (rest : List Node) :
    specifier? (first :: rest) =
      if first.is Word.braces then some (Node.tokensOf first.childList) else none := by
  rw [specifier?, List.head?_cons, Option.filter_some]
  split <;> rfl

theorem not_isValid_empty : isValid "" = false := rfl

/- A bracket that closes stands behind the one that opens. -/
theorem closing_behind {body : List Node} {close : Nat} (opened : body.head?.any (·.is "["))
    (found : body.findIdx? (·.is "]") = some close) : 1 ≤ close ∧ close + 1 ≤ body.length := by
  obtain ⟨within, closing, -⟩ := List.findIdx?_eq_some_iff_getElem.mp found
  cases body with
  | nil => contradiction
  | cons first rest =>
    constructor
    · cases close with
      | zero =>
        rw [List.head?_cons, Option.any_some, Node.is, beq_iff_eq] at opened
        rw [List.getElem_cons_zero, Node.is, opened] at closing
        contradiction
      | succ place => exact Nat.le_add_left 1 place
    · exact within

/- A specifier that is valid is not empty, so there is a node that it stands in. -/
theorem take?_eq (name : String) (body : List Node) : take? name body = some (take name body) := by
  unfold take? take
  split
  · rename_i starred
    rw [Bool.and_eq_true] at starred
    cases found : body.findIdx? (·.is "]") with
    | none => rfl
    | some close =>
      obtain ⟨behind, within⟩ := closing_behind starred.2 found
      have inside : range? body 1 close = some ((body.take close).drop 1) :=
        if_pos ⟨behind, Nat.le_of_succ_le within⟩
      simp only [inside, drop_of_le within, Option.bind_eq_bind, Option.bind_some]
      split <;> rfl
  · cases body with
    | nil =>
      split <;> rfl
    | cons first rest =>
      have one : drop? (first :: rest) 1 = some rest := drop_of_le (Nat.le_add_left 1 rest.length)
      rw [specifier?_cons, List.head?_cons, one]
      by_cases group : first.is Word.braces
      · simp only [group, if_true, Option.getD_some, Option.bind_eq_bind, Option.bind_some]
        split
        · split <;> rfl
        · split <;> rfl
      · simp only [group, Bool.false_eq_true, if_false, Option.getD_none, not_isValid_empty]
        split <;> rfl

end Alignment

namespace Script

/-- Puts a script on a node that can take it. A subscript of a node with a superscript is put
between what the node has. -/
def attach? (kind : ScriptKind) (modifier : Option Modifier) (base script : Node) : Option Node := do
  let joined (token : String) (children : List Node) : Node :=
    { Node.withChildren token children with modifier := base.modifier }
  let fusable := modifier.isNone && !base.isLeaf
  let pair := base.childList.length == 2
  if fusable && pair && kind = .sub && base.is "^" then
    return joined both (← insertAt? base.childList 1 script)
  else if fusable && pair && kind = .sup && base.is "_" then
    return joined both (base.childList ++ [script])
  else if fusable && (superscript? base).any (isPrime ·.token) then
    match base.childList.getLast? with
    | some prime => return joined base.token (base.childList.dropLast ++ [.braces [prime, script]])
    | none => return joined base.token []
  else
    return { Node.withChildren kind.token [base, script] with
      modifier := (braceModifier? base).or modifier }

theorem attach?_leaf (kind : ScriptKind) (modifier : Option Modifier) {base : Node} (script : Node)
    (leaf : base.isLeaf) :
    attach? kind modifier base script = some (attach kind modifier base script) := by
  have held : base.childList = [] := by
    rw [Node.childList, Option.isNone_iff_eq_none.mp leaf]
    rfl
  cases kind <;> simp [attach?, attach, leaf, held]

/- A base that can take a script has two children wherever a third one is put between them. -/
theorem attach?_eq {kind : ScriptKind} {base : Node} (script : Node) (free : conflict? kind base = none) :
    attach? kind none base script = some (attach kind none base script) := by
  by_cases leaf : base.isLeaf
  · exact attach?_leaf kind none script leaf
  · cases kind with
    | sub =>
      have others : base.is "_" = false ∧ base.is both = false := by
        simpa [conflict?] using free
      rcases held : base.childList with _ | ⟨inner, _ | ⟨second, _ | ⟨third, _ | ⟨fourth, more⟩⟩⟩⟩
      · simp [attach?, attach, held, superscript?]
      · simp [attach?, attach, held, superscript?]
      · cases power : base.is "^" with
        | true => simp [attach?, attach, held, leaf, power, insertAt?]
        | false => simp [attach?, attach, held, power, superscript?]
      · simp [attach?, attach, held, superscript?, others.2]
      · simp [attach?, attach, held, superscript?]
    | sup =>
      rcases held : base.childList with _ | ⟨inner, _ | ⟨second, _ | ⟨third, _ | ⟨fourth, more⟩⟩⟩⟩
      · simp [attach?, attach, held, superscript?]
      · simp [attach?, attach, held, superscript?]
      · cases index : base.is "_" with
        | true => simp [attach?, attach, held, leaf, index]
        | false =>
          cases power : base.is "^" with
          | true =>
            have prime : isPrime second.token = true := by
              simpa [conflict?, superscript?, held, power] using free
            have token : base.token = "^" := beq_iff_eq.mp power
            simp [attach?, attach, held, leaf, index, power, superscript?, prime, token]
          | false => simp [attach?, attach, held, index, power, superscript?]
      · cases pair : base.is both with
        | true =>
          have prime : isPrime third.token = true := by
            simpa [conflict?, superscript?, held, pair] using free
          have token : base.token = both := beq_iff_eq.mp pair
          simp [attach?, attach, held, leaf, pair, superscript?, prime, token]
        | false => simp [attach?, attach, held, pair, superscript?]
      · simp [attach?, attach, held, superscript?]

end Script

/-! ## The strict parse -/

namespace Reader

/-- What an operation gives. Where it gives nothing, the budget counts as used up. -/
def attempt {α : Type} (result : Option α) : Reader α :=
  match result with
  | some a => return a
  | none => throw .exhausted

def strictEnvironment (nested : Nested) (span : Span) (header : String) : Reader Node := do
  let name := (Word.inside? Word.environmentStart header).getD ""
  let ending := Word.environmentEnd ++ name ++ Word.closeBrace
  let nodes ← optional nested (some ending)
  if nodes.getLast?.any (·.is ending) then
    match ← attempt (Alignment.take? name nodes.dropLast) with
    | .ok (alignment, body) => return { Node.withChildren ("\\" ++ name) body with alignment }
    | .error text => refuse span (.invalidAlignment text)
  else refuse span (.missingEnd name)

def strictScript (nested : Nested) (terminator : Option String) (kind : ScriptKind) (span : Span)
    (stack : List Node) : Reader Progress := do
  let base := stack.head?.getD (.braces [])
  let below := stack.tail
  match Script.conflict? kind base with
  | some cause => refuse span cause
  | none =>
    if base.is "\\limits" && base.isLeaf then
      match below with
      | operator :: deeper =>
        if Script.isNamedOperator operator then
          let argument ← argument nested terminator
          let node ← attempt (Script.attach? kind (some .limits) operator argument)
          return ⟨node :: deeper, false⟩
        else refuse span .limitsRequireOperator
      | [] => refuse span .limitsRequireOperator
    else
      let argument ← argument nested terminator
      let node ← attempt (Script.attach? kind none base argument)
      return ⟨node :: below, false⟩

/-- The body of a table without braces around it. -/
def tableBody? (nodes : List Node) : Option (List Node) := do
  if nodes.length = 1 then
    let only ← nodes[0]?
    if only.is Word.braces then return only.childList else return nodes
  else return nodes

def strictTable (nested : Nested) (terminator : Option String) (token : String) (stack : List Node) :
    Reader Progress := do
  if ← nextIs Word.openBrace then
    let _ ← next?
    return ⟨.withChildren token (← group nested Word.closeBrace) :: stack, false⟩
  else
    let (nodes, marker) ← remainder nested terminator
    let body ← attempt (tableBody? nodes)
    return ⟨marker.toList ++ .withChildren token body :: stack, true⟩

def strictCommand (symbols : SymbolTable) (nested : Nested) (terminator : Option String) (t : Token)
    (stack : List Node) : Reader Progress :=
  if shape? symbols t.text = some .table then strictTable nested terminator t.text stack
  else command symbols nested terminator t stack

/-- Reads a token as `token` does; nodes that are taken from a list are taken by place. -/
def strictToken (symbols : SymbolTable) (nested : Nested) (terminator : Option String) (t : Token)
    (stack : List Node) : Reader Progress := do
  let push (node : Node) : Progress := ⟨node :: stack, false⟩
  let outside := terminator != some "\\right"
  if t.text == "\\right" && outside then refuse t.span (.unbalancedDelimiter .right)
  else if t.text == "\\middle" && outside then refuse t.span (.unbalancedDelimiter .middle)
  else if Word.begins Word.environmentStart t.text then
    return push (← strictEnvironment nested t.span t.text)
  else if t.text == "\\left" then return push (← leftRight nested t.span)
  else if t.text == Word.openBrace then
    return push (.braces (← group nested Word.closeBrace))
  else if t.text == "_" then strictScript nested terminator .sub t.span stack
  else if t.text == "^" then strictScript nested terminator .sup t.span stack
  else if t.text == "'" then
    return ⟨Script.addPrime (stack.head?.getD (.braces [])) :: stack.tail, false⟩
  else strictCommand symbols nested terminator t stack

def strictSequence (symbols : SymbolTable) (terminator : Option String) (limit : Limit) :
    Nat → Bool → List Node → Reader (List Node)
  | 0, _, _ => throw .exhausted
  | budget + 1, consumed, stack =>
    let nested : Nested :=
      { raw := rawArgument
        sequence := fun terminator limit => strictSequence symbols terminator limit budget false [] }
    turn terminator limit (strictToken symbols nested terminator)
      (strictSequence symbols terminator limit budget true) consumed stack

theorem strictEnvironment_eq (nested : Nested) (span : Span) (header : String) :
    strictEnvironment nested span header = environment nested span header := by
  unfold strictEnvironment environment
  simp only [Alignment.take?_eq]
  rfl

theorem strictScript_eq (nested : Nested) (terminator : Option String) (kind : ScriptKind) (span : Span)
    (stack : List Node) :
    strictScript nested terminator kind span stack = script nested terminator kind span stack := by
  unfold strictScript script
  dsimp only
  cases free : Script.conflict? kind (stack.head?.getD (.braces [])) with
  | some cause => rfl
  | none =>
    dsimp only
    split
    · cases stack.tail with
      | nil => rfl
      | cons operator deeper =>
        dsimp only
        split
        · rename_i named
          have leaf : operator.isLeaf := by
            unfold Script.isNamedOperator at named
            rw [Bool.and_eq_true, Bool.and_eq_true] at named
            exact named.1.1
          simp only [Script.attach?_leaf kind _ _ leaf]
          rfl
        · rfl
    · simp only [Script.attach?_eq _ free]
      rfl

theorem strictTable_eq (nested : Nested) (terminator : Option String) (token : String)
    (stack : List Node) : strictTable nested terminator token stack = table nested terminator token stack := by
  unfold strictTable table
  apply bind_congr
  intro braced
  split
  · rfl
  · apply bind_congr
    rintro ⟨nodes, marker⟩
    rcases nodes with _ | ⟨only, _ | ⟨second, more⟩⟩
    · rfl
    · have body : tableBody? [only] =
          some (if only.is Word.braces then only.childList else [only]) := by
        change (if only.is Word.braces then some only.childList else some [only]) = _
        split <;> rfl
      dsimp only
      rw [body]
      rfl
    · rfl

theorem strictCommand_eq (symbols : SymbolTable) (nested : Nested) (terminator : Option String)
    (t : Token) (stack : List Node) :
    strictCommand symbols nested terminator t stack = command symbols nested terminator t stack := by
  unfold strictCommand
  split
  · rename_i shape
    rw [strictTable_eq, command, shape]
  · rfl

theorem strictToken_eq (symbols : SymbolTable) (nested : Nested) (terminator : Option String) (t : Token)
    (stack : List Node) :
    strictToken symbols nested terminator t stack = token symbols nested terminator t stack := by
  unfold strictToken token
  rw [strictEnvironment_eq, strictScript_eq, strictScript_eq, strictCommand_eq]

theorem strictSequence_eq (symbols : SymbolTable) (terminator : Option String) (limit : Limit)
    (budget : Nat) (consumed : Bool) (stack : List Node) :
    strictSequence symbols terminator limit budget consumed stack =
      sequence symbols terminator limit budget consumed stack := by
  induction budget generalizing terminator limit consumed stack with
  | zero => rfl
  | succ budget ih =>
    have inner : (fun terminator limit => strictSequence symbols terminator limit budget false []) =
        fun terminator limit => sequence symbols terminator limit budget false [] :=
      funext₂ fun terminator limit => ih terminator limit false []
    have step (nested : Nested) :
        strictToken symbols nested terminator = token symbols nested terminator :=
      funext₂ (strictToken_eq symbols nested terminator)
    have again : strictSequence symbols terminator limit budget true =
        sequence symbols terminator limit budget true :=
      funext (ih terminator limit true)
    rw [strictSequence, sequence]
    rw [inner, step, again]

/- A parse of all tokens never uses up its budget. -/
theorem sequence_ends (symbols : SymbolTable) (tokens : List Token) (stop : Nat) :
    (sequence symbols none .unbounded (tokens.length + 1) false []).run
        { tokens, last := ⟨0, 0⟩, stop } ≠ .error .exhausted := by
  obtain ⟨-, ends⟩ : Same
      (watchedCall none .unbounded
        (watchedSequence symbols none .unbounded (tokens.length + 1) false []))
      (sequence symbols none .unbounded (tokens.length + 1) false [])
      { tokens, last := ⟨0, 0⟩, stop } _ :=
    watchedCall_same symbols (Nat.lt_succ_self tokens.length) Wait.closing_none rfl
  intro exhausted
  unfold Ends at ends
  rw [StateT.run] at exhausted
  rw [exhausted] at ends
  exact ends rfl

end Reader

namespace Formula

/-- Reads all tokens of a source strictly. -/
def strictTokens? (symbols : SymbolTable) (tokens : List Token) (stop : Nat) :
    Except Failure (List Node) :=
  let cursor : Cursor := { tokens, last := ⟨0, 0⟩, stop }
  if tokens.isEmpty then .ok []
  else
    ((Reader.strictSequence symbols none .unbounded (tokens.length + 1) false []).run cursor).map (·.1)

/-- The nodes of a source, or what is wrong with it, where no operation fails on the way. -/
def parse? (symbols : SymbolTable) (source : String) : Option (Except FormulaError (List Node)) := do
  let tokens ← Bytes.tokens? symbols source
  match strictTokens? symbols tokens source.utf8ByteSize with
  | .ok nodes => return .ok nodes
  | .error (.refused e) => return .error e
  | .error .exhausted => none

theorem strictTokens?_eq (symbols : SymbolTable) (tokens : List Token) (stop : Nat) :
    strictTokens? symbols tokens stop = ofTokens? symbols tokens stop := by
  rw [strictTokens?, Reader.strictSequence_eq, ofTokens?]

theorem ofTokens?_ends (symbols : SymbolTable) (tokens : List Token) (stop : Nat) :
    ofTokens? symbols tokens stop ≠ .error .exhausted := by
  unfold ofTokens?
  dsimp only
  split
  · exact nofun
  · have ends := Reader.sequence_ends symbols tokens stop
    cases given : (Reader.sequence symbols none .unbounded (tokens.length + 1) false []).run
        { tokens, last := ⟨0, 0⟩, stop } with
    | ok result => exact nofun
    | error failure =>
      rw [given] at ends
      exact fun same => ends (congrArg Except.error (Except.error.inj same))

theorem parse?_eq (symbols : SymbolTable) (source : String) :
    parse? symbols source = some (parse symbols source) := by
  have ends := ofTokens?_ends symbols (Source.tokens symbols source) source.utf8ByteSize
  unfold parse? parse
  rw [Bytes.tokens?_eq]
  dsimp only [Option.bind_eq_bind, Option.bind_some]
  rw [strictTokens?_eq]
  cases given : ofTokens? symbols (Source.tokens symbols source) source.utf8ByteSize with
  | ok nodes => rfl
  | error failure =>
    cases failure with
    | refused e => rfl
    | exhausted => exact absurd given ends

end Formula

end FormulaMarkup

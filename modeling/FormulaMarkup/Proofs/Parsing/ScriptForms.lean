import FormulaMarkup.Proofs.Parsing.ScriptArity

/-!
What scripts do to nodes, with nothing read. A script goes to the node before it, or to the operator
before a `\limits`; there it meets a node that bears no script, a subscript, a superscript or both. Main
statement: where a subscript and a superscript go to the same node, their order makes no difference.
-/
namespace FormulaMarkup.Script

open Node (withChildren scriptCount?)

/-! ## Scripts on a stack -/

/-- Where a script goes: the node that it is put on, how it stands there, and the nodes below. -/
structure Target where
  base : Node
  modifier : Option Modifier
  below : List Node

/-- Where a script goes on a stack, or what is wrong with it there. -/
def target (kind : ScriptKind) (stack : List Node) : Except Cause Target :=
  let base := stack.head?.getD (.braces [])
  match conflict? kind base with
  | some cause => .error cause
  | none =>
    if base.is "\\limits" && base.isLeaf then
      match stack.tail with
      | operator :: deeper =>
        if isNamedOperator operator then .ok ⟨operator, some .limits, deeper⟩
        else .error .limitsRequireOperator
      | [] => .error .limitsRequireOperator
    else .ok ⟨base, none, stack.tail⟩

/-- What a script makes of the nodes before it, the newest first. -/
def put (kind : ScriptKind) (argument : Node) (stack : List Node) : Except Cause (List Node) :=
  (target kind stack).map fun target =>
    attach kind target.modifier target.base argument :: target.below

/-! ## What a node is to a script -/

/-- A node bears a subscript, a superscript, both or none. -/
inductive Bearing (node : Node) : Prop
  | sub {inner low : Node} (name : node.token = "_") (held : node.childList = [inner, low])
  | sup {inner high : Node} (name : node.token = "^") (held : node.childList = [inner, high])
  | both {inner low high : Node} (name : node.token = both) (held : node.childList = [inner, low, high])
  | plain (other : scriptCount? node.token = none)

theorem bearing_of_scripted {node : Node} (scripted : node.Scripted) : Bearing node := by
  cases named : scriptCount? node.token with
  | none => exact .plain named
  | some count =>
    have length := scripted count named
    unfold scriptCount? at named
    split at named
    · rename_i name
      cases named
      obtain ⟨inner, low, held⟩ := List.length_eq_two.mp length
      exact .sub name held
    · rename_i name
      cases named
      obtain ⟨inner, high, held⟩ := List.length_eq_two.mp length
      exact .sup name held
    · rename_i name
      cases named
      obtain ⟨inner, low, high, held⟩ := List.length_eq_three.mp length
      exact .both name held
    · cases named

/-- A script on a node, if the node can take it. -/
def join? (kind : ScriptKind) (modifier : Option Modifier) (base script : Node) : Option Node :=
  if (conflict? kind base).isNone then some (attach kind modifier base script) else none

/-- A node for scripts as they are joined: nothing but its modifier is taken over. -/
def bearer (token : String) (modifier : Option Modifier) (children : List Node) : Node :=
  { withChildren token children with modifier }

variable {kind : ScriptKind} {modifier : Option Modifier} {base inner low high script : Node}

theorem is_of_token {token : String} (name : base.token = token) (other : String) :
    base.is other = (token == other) := by
  rw [Node.is, name]

theorem is_eq_false_of_plain (other : scriptCount? base.token = none) :
    base.is "_" = false ∧ base.is "^" = false ∧ base.is both = false := by
  refine ⟨?_, ?_, ?_⟩
  all_goals
    refine beq_eq_false_iff_ne.mpr ?_
    intro name
    rw [name] at other
    cases other

theorem conflict?_plain (other : scriptCount? base.token = none) : conflict? kind base = none := by
  obtain ⟨sub, sup, both'⟩ := is_eq_false_of_plain other
  have none : superscript? base = none := by
    unfold superscript?
    split
    · rw [sup, if_neg Bool.false_ne_true]
    · rw [both', if_neg Bool.false_ne_true]
    · rfl
  cases kind with
  | sub => simp [conflict?, sub, both']
  | sup => simp [conflict?, none]

/-- A node without scripts takes a script of either kind in a node of its own. -/
theorem join?_plain (other : scriptCount? base.token = none) :
    join? kind modifier base script =
      some (bearer kind.token ((braceModifier? base).or modifier) [base, script]) := by
  obtain ⟨sub, sup, both'⟩ := is_eq_false_of_plain other
  rw [join?, conflict?_plain other, Option.isNone_none, if_pos rfl]
  unfold attach
  simp only [sub, sup, both', Bool.false_and, Bool.false_eq_true, if_false]
  split
  all_goals rfl

/-! A node with a subscript takes a superscript only. -/

theorem join?_sub_of_sub (name : base.token = "_") : join? .sub modifier base script = none := by
  simp [join?, conflict?, is_of_token name]

theorem join?_sup_of_sub (name : base.token = "_") (held : base.childList = [inner, low]) :
    join? .sup modifier base script = some (bearer both base.modifier [inner, low, script]) := by
  simp [join?, conflict?, superscript?, attach, bearer, held, is_of_token name]

/-! A node with a superscript takes a subscript, and a superscript behind primes. -/

theorem join?_sub_of_sup (name : base.token = "^") (held : base.childList = [inner, high]) :
    join? .sub modifier base script = some (bearer both base.modifier [inner, script, high]) := by
  simp [join?, conflict?, attach, bearer, held, both, is_of_token name]

theorem join?_sup_of_sup (name : base.token = "^") (held : base.childList = [inner, high]) :
    join? .sup modifier base script =
      if isPrime high.token then some (bearer "^" base.modifier [inner, .braces [high, script]])
      else none := by
  cases prime : isPrime high.token with
  | true => simp [join?, conflict?, superscript?, attach, bearer, held, prime, is_of_token name]
  | false => simp [join?, conflict?, superscript?, held, prime, is_of_token name]

/-! A node with both takes a superscript behind primes. -/

theorem join?_sub_of_both (name : base.token = both) : join? .sub modifier base script = none := by
  simp [join?, conflict?, is_of_token name]

theorem join?_sup_of_both (name : base.token = both) (held : base.childList = [inner, low, high]) :
    join? .sup modifier base script =
      if isPrime high.token then some (bearer both base.modifier [inner, low, .braces [high, script]])
      else none := by
  cases prime : isPrime high.token with
  | true => simp [join?, conflict?, superscript?, attach, bearer, held, prime, is_of_token name]
  | false => simp [join?, conflict?, superscript?, held, prime, is_of_token name]

/-- On one node, a subscript and a superscript give the same in either order. -/
theorem join?_comm (modifier : Option Modifier) (low high : Node) (bearing : Bearing base) :
    (join? .sup modifier base high).bind (join? .sub none · low) =
      (join? .sub modifier base low).bind (join? .sup none · high) := by
  cases bearing with
  | plain other =>
    rw [join?_plain other, join?_plain other]
    rfl
  | sub name held =>
    rw [join?_sub_of_sub name, join?_sup_of_sub name held]
    exact join?_sub_of_both rfl
  | sup name held =>
    rw [join?_sup_of_sup name held, join?_sub_of_sup name held, Option.bind_some,
      join?_sup_of_both rfl rfl]
    split
    · rfl
    · rfl
  | both name held =>
    rw [join?_sub_of_both name, join?_sup_of_both name held]
    split
    · exact join?_sub_of_both rfl
    · rfl

/-! ## Both kinds on a stack -/

theorem conflict?_eq {cause : Cause} (conflict : conflict? kind base = some cause) :
    cause = .doubleScript kind := by
  unfold conflict? at conflict
  split at conflict
  · split at conflict
    · cases conflict
      rfl
    · cases conflict
  · split at conflict
    · cases conflict
      rfl
    · cases conflict

theorem isLeaf_join? {node : Node} (joined : join? kind modifier base script = some node) :
    node.isLeaf = false := by
  have attached : (attach kind modifier base script).isLeaf = false := by
    unfold attach
    dsimp only
    split
    · split <;> rfl
    · split
      · rfl
      · split <;> rfl
    · split <;> rfl
    · rfl
  unfold join? at joined
  split at joined
  · cases joined
    exact attached
  · cases joined

/-- A script that goes to the last node is put on it, or is the second one of its kind. -/
theorem put_cons {below : List Node} (plain : (base.is "\\limits" && base.isLeaf) = false) :
    put kind script (base :: below) =
      match join? kind none base script with
      | some node => .ok (node :: below)
      | none => .error (.doubleScript kind) := by
  unfold put target join?
  simp only [List.head?_cons, Option.getD_some, List.tail_cons, plain]
  cases conflict : conflict? kind base with
  | some cause =>
    rw [conflict?_eq conflict]
    rfl
  | none => rfl

theorem scriptCount?_operator (named : isNamedOperator base = true) :
    scriptCount? base.token = none := by
  unfold isNamedOperator at named
  simp only [Bool.and_eq_true] at named
  obtain ⟨rest, split⟩ := List.isPrefixOf_iff_prefix.mp named.1.2
  exact Node.scriptCount?_command split.symm

/-- A script behind a `\limits` goes to the operator before that. -/
theorem put_limits (below : List Node) (limits : (base.is "\\limits" && base.isLeaf) = true) :
    (∃ cause, ∀ kind script, put kind script (base :: below) = .error cause) ∨
      ∃ operator deeper, below = operator :: deeper ∧ isNamedOperator operator = true ∧
        ∀ kind script, put kind script (base :: below) =
          .ok (attach kind (some .limits) operator script :: deeper) := by
  have name : base.token = "\\limits" := beq_iff_eq.mp (Bool.and_eq_true_iff.mp limits).1
  have free (kind : ScriptKind) : conflict? kind base = none := conflict?_plain (by rw [name]; rfl)
  unfold put target
  simp only [List.head?_cons, Option.getD_some, List.tail_cons, free, limits, if_true]
  cases below with
  | nil => exact .inl ⟨.limitsRequireOperator, fun kind script => rfl⟩
  | cons operator deeper =>
    dsimp only
    cases named : isNamedOperator operator with
    | false => exact .inl ⟨.limitsRequireOperator, fun kind script => rfl⟩
    | true => exact .inr ⟨operator, deeper, rfl, named, fun kind script => rfl⟩

/-- Scripts of both kinds go to the same place on a stack, if they go anywhere. -/
theorem put_cases {stack : List Node} (scripted : ∀ node ∈ stack, node.Scripted) :
    (∃ cause, ∀ kind script, put kind script stack = .error cause) ∨
      ∃ base modifier below, Bearing base ∧ ∀ kind script,
        (put kind script stack).toOption = (join? kind modifier base script).map (· :: below) := by
  have last {base : Node} {below : List Node} (plain : (base.is "\\limits" && base.isLeaf) = false)
      (kind : ScriptKind) (script : Node) : (put kind script (base :: below)).toOption =
        (join? kind none base script).map (· :: below) := by
    rw [put_cons plain]
    cases join? kind none base script with
    | none => rfl
    | some node => rfl
  cases stack with
  | nil => exact .inr ⟨.braces [], none, [], .plain rfl, last rfl⟩
  | cons base below =>
    cases limits : base.is "\\limits" && base.isLeaf with
    | false =>
      exact .inr ⟨base, none, below, bearing_of_scripted (scripted base List.mem_cons_self), last limits⟩
    | true =>
      rcases put_limits below limits with refused | ⟨operator, deeper, rfl, named, placed⟩
      · exact .inl refused
      · have other := scriptCount?_operator named
        refine .inr ⟨operator, some .limits, deeper, .plain other, fun kind script => ?_⟩
        rw [placed, join?, conflict?_plain other]
        rfl

/-- A subscript and a superscript make the same of a stack in either order, or fail in both. -/
theorem put_comm {stack : List Node} (low high : Node) (scripted : ∀ node ∈ stack, node.Scripted) :
    ((put .sup high stack).toOption.bind fun next => (put .sub low next).toOption) =
      (put .sub low stack).toOption.bind fun next => (put .sup high next).toOption := by
  rcases put_cases scripted with ⟨cause, refused⟩ | ⟨base, modifier, below, bearing, placed⟩
  · rw [refused, refused]
    rfl
  · have behind {kind other : ScriptKind} {first second : Node} :
        ((put kind first stack).toOption.bind fun next => (put other second next).toOption) =
          ((join? kind modifier base first).bind (join? other none · second)).map (· :: below) := by
      rw [placed]
      cases joined : join? kind modifier base first with
      | none => rfl
      | some node =>
        rw [Option.map_some, Option.bind_some, Option.bind_some, put_cons (by simp [isLeaf_join? joined])]
        cases join? other none node second with
        | none => rfl
        | some node => rfl
    rw [behind, behind, join?_comm modifier low high bearing]

end FormulaMarkup.Script

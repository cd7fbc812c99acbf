import FormulaMarkup.Proofs.Parsing.Groups
import FormulaMarkup.Proofs.Parsing.PrimeChains
import FormulaMarkup.Symbol.Known
import Mathlib.Data.List.Induction

/-!
Scripts and primes on a letter. What is written behind the letter is followed operation by operation: the
node is the letter with the scripts so far, and its superscript is a chain of primes until there is an
exponent. Main statement: which operations are read to one node and which is the first to be refused, with
what the node holds.
-/
namespace FormulaMarkup

open Wait

/-- What can be written behind a base: a script in braces or an apostrophe. -/
inductive Operation where
  | script (kind : ScriptKind) (words : List String) (nodes : List Node)
  | prime

namespace Operation

def words : Operation → List String
  | script kind words _ => kind.token :: inBraces words
  | prime => ["'"]

/-- The words of a script are read as a group. -/
def Sound (symbols : SymbolTable) : Operation → Prop
  | script _ words nodes => Reader.Grouped symbols words nodes
  | prime => True

theorem sound_prime (symbols : SymbolTable) : prime.Sound symbols := trivial

/-- The kind of a script; none for a prime. -/
def kind? : Operation → Option ScriptKind
  | script kind _ _ => some kind
  | prime => none

def strokeCount (ops : List Operation) : Nat := (ops.map kind?).count none

/-- A script that is the second one of its kind, or an exponent behind more than four strokes. -/
def Blocked (front : List Operation) (kind : ScriptKind) : Prop :=
  some kind ∈ front.map kind? ∨ kind = .sup ∧ 4 < strokeCount front

/-- At most one script of each kind, and no exponent behind more than four strokes. -/
structure Acceptable (ops : List Operation) : Prop where
  sub : (ops.map kind?).count (some .sub) ≤ 1
  sup : (ops.map kind?).count (some .sup) ≤ 1
  strokes : ∀ front words nodes back, ops = front ++ script .sup words nodes :: back →
    strokeCount front ≤ 4

variable {front back ops : List Operation} {op : Operation} {kind : ScriptKind}

theorem acceptable_nil : Acceptable [] where
  sub := Nat.zero_le _
  sup := Nat.zero_le _
  strokes := by simp

theorem Acceptable.of_snoc (acceptable : Acceptable (front ++ [op])) : Acceptable front where
  sub := by
    have both := acceptable.sub
    rw [List.map_append, List.count_append] at both
    omega
  sup := by
    have both := acceptable.sup
    rw [List.map_append, List.count_append] at both
    omega
  strokes := by
    rintro first words nodes back rfl
    exact acceptable.strokes first words nodes (back ++ [op]) (by simp)

theorem Acceptable.not_blocked (acceptable : Acceptable (front ++ [op])) :
    ∀ kind, op.kind? = some kind → ¬ Blocked front kind := by
  rintro kind named (earlier | ⟨rfl, many⟩)
  · have once := List.count_pos_iff.mpr earlier
    have most : ((front ++ [op]).map kind?).count (some kind) ≤ 1 := by
      cases kind with
      | sub => exact acceptable.sub
      | sup => exact acceptable.sup
    simp only [List.map_append, List.map_cons, List.map_nil, named, List.count_append,
      List.count_singleton_self] at most
    omega
  · cases op with
    | prime => cases named
    | script kind words nodes =>
      cases named
      have few := acceptable.strokes front words nodes [] rfl
      omega

theorem Acceptable.snoc (acceptable : Acceptable front)
    (free : ∀ kind, op.kind? = some kind → ¬ Blocked front kind) : Acceptable (front ++ [op]) := by
  have once (kind : ScriptKind) (most : (front.map kind?).count (some kind) ≤ 1) :
      ((front ++ [op]).map kind?).count (some kind) ≤ 1 := by
    by_cases named : op.kind? = some kind
    · have new : some kind ∉ front.map kind? := fun earlier => free kind named (.inl earlier)
      simp [named, List.count_eq_zero.mpr new]
    · simpa [named] using most
  refine ⟨once .sub acceptable.sub, once .sup acceptable.sup, ?_⟩
  intro first words nodes back split
  rcases List.eq_nil_or_concat back with rfl | ⟨back, last, rfl⟩
  · obtain ⟨rfl, only⟩ := List.append_inj' split rfl
    cases only
    have few := free .sup rfl
    simp only [Blocked, not_or, not_and, true_imp_iff] at few
    omega
  · rw [List.concat_eq_append, ← List.cons_append, ← List.append_assoc] at split
    obtain ⟨rfl, -⟩ := List.append_inj' split rfl
    exact acceptable.strokes first words nodes back rfl

/-- Operations that are not acceptable have a first one that is not. -/
theorem exists_blocked (refused : ¬ Acceptable ops) :
    ∃ front kind words nodes back, ops = front ++ script kind words nodes :: back ∧ Acceptable front ∧
      Blocked front kind := by
  induction ops using List.reverseRecOn with
  | nil => exact absurd acceptable_nil refused
  | append_singleton front op ih =>
    by_cases acceptable : Acceptable front
    · have blocked : ∃ kind, op.kind? = some kind ∧ Blocked front kind := by
        by_contra none
        exact refused (acceptable.snoc fun kind named blocked => none ⟨kind, named, blocked⟩)
      obtain ⟨kind, named, blocked⟩ := blocked
      cases op with
      | prime => cases named
      | script kind words nodes =>
        cases named
        exact ⟨front, kind, words, nodes, [], rfl, acceptable, blocked⟩
    · obtain ⟨first, kind, words, nodes, back, rfl, clear, blocked⟩ := ih acceptable
      exact ⟨first, kind, words, nodes, back ++ [op], by simp, clear, blocked⟩

/-! ## What is put where -/

/-- The subscripts, in the order written. -/
def lowered (ops : List Operation) : List Node :=
  ops.flatMap fun
    | script .sub _ nodes => [.braces nodes]
    | _ => []

/-- The primes and exponents, in the order written. -/
def raised (ops : List Operation) : List Node :=
  ops.flatMap fun
    | script .sup _ nodes => [.braces nodes]
    | script .sub _ _ => []
    | prime => [Script.stroke]

theorem lowered_eq_nil (free : some .sub ∉ ops.map kind?) : lowered ops = [] := by
  rw [lowered, List.flatMap_eq_nil_iff]
  intro op mem
  split
  · exact absurd (List.mem_map_of_mem mem) free
  · rfl

theorem lowered_ne_nil (earlier : some .sub ∈ ops.map kind?) : ∃ low, (lowered ops).head? = some low := by
  obtain ⟨op, mem, named⟩ := List.mem_map.mp earlier
  cases op with
  | prime => cases named
  | script kind words nodes =>
    cases named
    have held : Node.braces nodes ∈ lowered ops := List.mem_flatMap.mpr ⟨_, mem, List.mem_singleton_self _⟩
    exact ⟨_, List.head?_eq_some_head (List.ne_nil_of_mem held)⟩

theorem raised_free (free : some .sup ∉ ops.map kind?) :
    raised ops = List.replicate (strokeCount ops) Script.stroke := by
  induction ops with
  | nil => rfl
  | cons op rest ih =>
    simp only [List.map_cons, List.mem_cons, not_or] at free
    have behind := ih free.2
    unfold raised strokeCount at behind ⊢
    cases op with
    | prime => simp [behind, kind?, List.replicate_succ]
    | script kind words nodes =>
      cases kind with
      | sub => simp [behind, kind?]
      | sup => exact absurd rfl free.1

theorem raised_ne_nil (earlier : some .sup ∈ ops.map kind?) : raised ops ≠ [] := by
  obtain ⟨op, mem, named⟩ := List.mem_map.mp earlier
  cases op with
  | prime => cases named
  | script kind words nodes =>
    cases named
    have held : Node.braces nodes ∈ raised ops := List.mem_flatMap.mpr ⟨_, mem, List.mem_singleton_self _⟩
    exact List.ne_nil_of_mem held

end Operation

/-! ## Nodes with scripts -/

namespace Script

/-- A base with the scripts that it has. -/
def formed (base : Node) : Option Node → Option Node → Node
  | none, none => base
  | some low, none => .withChildren "_" [base, low]
  | none, some high => .withChildren "^" [base, high]
  | some low, some high => .withChildren both [base, low, high]

/-- Nodes, with what the first one holds in its place if it is a group. -/
def unwrapped : List Node → List Node
  | [] => []
  | first :: rest => (if first.is Word.braces then first.childList else [first]) ++ rest

theorem unwrapped_append {front : List Node} (some' : front ≠ []) (back : List Node) :
    unwrapped (front ++ back) = unwrapped front ++ back := by
  cases front with
  | nil => exact absurd rfl some'
  | cons first front => simp [unwrapped]

theorem unwrapped_braces (nodes : List Node) : unwrapped [.braces nodes] = nodes :=
  List.append_nil nodes

theorem unwrapped_chain (more : Nat) : unwrapped [.collapse (chain more)] = chain more := by
  by_cases long : 4 ≤ more
  · rw [collapse_chain long, unwrapped_braces]
  · have short : ∀ more < 4, unwrapped [.collapse (chain more)] = chain more := by
      decide
    exact short more (by omega)

theorem unwrapped_replicate (count : Nat) :
    unwrapped (List.replicate count stroke) = List.replicate count stroke := by
  cases count <;> rfl

variable {base low high script : Node} {sup : Option Node} {kind : ScriptKind}

/-- A base that has a name of its own. -/
structure Plain (base : Node) : Prop where
  other : Node.scriptCount? base.token = none
  unbraced : braceModifier? base = none
  operand : base.is "\\limits" = false

theorem plain_letter {letter : Char} (isLetter : IsLetter letter) :
    Plain (.leaf (String.singleton letter)) := by
  have tokens : ∀ token ∈ ["_", "^", "_^", "\\overbrace", "\\underbrace", "\\limits"],
      String.singleton letter ≠ token := by
    intro token mem
    refine ne_of_special isLetter.startsSpecial_eq_false ?_
    revert token
    decide
  refine ⟨?_, ?_, ?_⟩
  · exact Node.scriptCount?_eq_none (tokens "_" (by decide)) (tokens "^" (by decide)) (tokens "_^" (by decide))
  · simp [braceModifier?, Node.is, Node.leaf, tokens "\\overbrace" (by decide), tokens "\\underbrace" (by decide)]
  · exact beq_eq_false_iff_ne.mpr (tokens "\\limits" (by decide))

theorem put_formed {low sup : Option Node} (plain : Plain base) :
    put kind script [formed base low sup] =
      match join? kind none (formed base low sup) script with
      | some node => .ok [node]
      | none => .error (.doubleScript kind) := by
  refine put_cons ?_
  cases low with
  | none =>
    cases sup with
    | none => exact Bool.and_eq_false_imp.mpr fun absurd => Bool.noConfusion (plain.operand.symm.trans absurd)
    | some high => rfl
  | some low => cases sup <;> rfl

theorem join?_low (plain : Plain base) (sup : Option Node) :
    join? .sub none (formed base none sup) script = some (formed base (some script) sup) := by
  cases sup with
  | none =>
    refine (join?_plain plain.other).trans ?_
    rw [plain.unbraced]
    rfl
  | some high => exact join?_sub_of_sup rfl rfl

theorem join?_low_twice (sup : Option Node) :
    join? .sub none (formed base (some low) sup) script = none := by
  cases sup with
  | none => exact join?_sub_of_sub rfl
  | some high => exact join?_sub_of_both rfl

theorem join?_high (plain : Plain base) (low : Option Node) :
    join? .sup none (formed base low none) script = some (formed base low (some script)) := by
  cases low with
  | none =>
    refine (join?_plain plain.other).trans ?_
    rw [plain.unbraced]
    rfl
  | some low => exact join?_sup_of_sub rfl rfl

theorem join?_high_twice (low : Option Node) :
    join? .sup none (formed base low (some high)) script =
      if isPrime high.token then some (formed base low (some (.braces [high, script]))) else none := by
  cases low with
  | none => exact join?_sup_of_sup rfl rfl
  | some low => exact join?_sup_of_both rfl rfl

theorem addPrime_free (plain : Plain base) (low : Option Node) :
    addPrime (formed base low none) = formed base low (some stroke) := by
  obtain ⟨sub, sup, both'⟩ := is_eq_false_of_plain plain.other
  cases low with
  | none =>
    unfold addPrime formed
    dsimp only
    split
    · simp [sub, sup]
    · simp [both']
    · rfl
  | some low => rfl

theorem addPrime_high (low : Option Node) :
    addPrime (formed base low (some high)) = formed base low (some (lengthen high)) := by
  cases low <;> rfl

end Script

namespace Operation

open Script (formed unwrapped chain stroke put addPrime isPrime)

/-- The superscript behind operations: none, a chain of primes, or a group with the exponent. -/
inductive Raised (ops : List Operation) : Option Node → Prop
  | bare (free : some .sup ∉ ops.map kind?) (none' : strokeCount ops = 0) : Raised ops none
  | primes {more : Nat} (free : some .sup ∉ ops.map kind?) (count : strokeCount ops = more + 1) :
    Raised ops (some (.collapse (chain more)))
  | exponent {held : List Node} (earlier : some .sup ∈ ops.map kind?)
      (same : held.flatMap Script.strokes = (unwrapped (raised ops)).flatMap Script.strokes) :
    Raised ops (some (.braces held))

/-- The node of a base behind operations. -/
def Bears (base : Node) (ops : List Operation) (node : Node) : Prop :=
  ∃ sup, node = formed base (lowered ops).head? sup ∧ Raised ops sup

variable {base node : Node} {sup : Option Node} {words : List String} {nodes : List Node}

theorem bears_nil : Bears base [] base := ⟨none, rfl, .bare List.not_mem_nil rfl⟩

theorem strokeCount_snoc : strokeCount (ops ++ [op]) = strokeCount ops + if op.kind? = none then 1 else 0 := by
  cases op <;> simp [strokeCount, kind?]

theorem Raised.subscript (held : Raised ops sup) : Raised (ops ++ [script .sub words nodes]) sup := by
  have same : raised (ops ++ [script .sub words nodes]) = raised ops := by simp [raised]
  have count : strokeCount (ops ++ [script .sub words nodes]) = strokeCount ops := strokeCount_snoc
  have kinds : some .sup ∈ (ops ++ [script .sub words nodes]).map kind? ↔ some .sup ∈ ops.map kind? := by
    simp [kind?]
  cases held with
  | bare free none' => exact .bare (mt kinds.mp free) (count.trans none')
  | primes free more => exact .primes (mt kinds.mp free) (count.trans more)
  | exponent earlier shown => exact .exponent (kinds.mpr earlier) (same ▸ shown)

theorem lowered_snoc_of_ne (other : op.kind? ≠ some .sub) : lowered (ops ++ [op]) = lowered ops := by
  cases op with
  | prime => simp [lowered]
  | script kind words nodes =>
    cases kind with
    | sub => exact absurd rfl other
    | sup => simp [lowered]

theorem Bears.subscript (plain : Script.Plain base) (bears : Bears base ops node) (free : ¬ Blocked ops .sub) :
    ∃ next, put .sub (.braces nodes) [node] = .ok [next] ∧
      Bears base (ops ++ [script .sub words nodes]) next := by
  obtain ⟨sup, rfl, held⟩ := bears
  have none' : lowered ops = [] := lowered_eq_nil fun earlier => free (.inl earlier)
  have new : lowered (ops ++ [script .sub words nodes]) = [.braces nodes] := by
    have front := none'
    unfold lowered at front ⊢
    rw [List.flatMap_append, front]
    rfl
  refine ⟨formed base (some (.braces nodes)) sup, ?_, sup, by rw [new]; rfl, held.subscript⟩
  rw [Script.put_formed plain, none', List.head?_nil, Script.join?_low plain]

theorem raised_sup : raised (ops ++ [script .sup words nodes]) = raised ops ++ [.braces nodes] := by
  simp [raised]

theorem Bears.superscript (plain : Script.Plain base) (bears : Bears base ops node) (free : ¬ Blocked ops .sup) :
    ∃ next, put .sup (.braces nodes) [node] = .ok [next] ∧
      Bears base (ops ++ [script .sup words nodes]) next := by
  obtain ⟨sup, rfl, held⟩ := bears
  have low : lowered (ops ++ [script .sup words nodes]) = lowered ops := lowered_snoc_of_ne nofun
  have now : some .sup ∈ (ops ++ [script .sup words nodes]).map kind? := by simp [kind?]
  unfold Bears
  rw [low, Script.put_formed plain]
  cases held with
  | bare new none' =>
    refine ⟨_, by rw [Script.join?_high plain], _, rfl, .exponent now ?_⟩
    rw [raised_sup, raised_free new, none']
    simp [unwrapped, Node.is, Node.braces, Node.withChildren, Node.childList]
  | @primes more new count =>
    have short : ∀ more < 4, isPrime (Node.collapse (chain more)).token = true ∧
        Script.strokes (Node.collapse (chain more)) = List.replicate (more + 1) stroke := by
      decide
    have few : more < 4 := by
      by_contra many
      exact free (.inr ⟨rfl, by omega⟩)
    obtain ⟨prime, shown⟩ := short more few
    refine ⟨_, by rw [Script.join?_high_twice, if_pos prime], _, rfl, .exponent now ?_⟩
    rw [raised_sup, raised_free new, count, Script.unwrapped_append (by simp), Script.unwrapped_replicate,
      List.flatMap_append, Script.strokes_replicate]
    simp [shown, Script.strokes_braces]
  | exponent earlier => exact absurd (.inl earlier) free

theorem Bears.prime (plain : Script.Plain base) (bears : Bears base ops node) :
    Bears base (ops ++ [prime]) (addPrime node) := by
  obtain ⟨sup, rfl, held⟩ := bears
  have low : lowered (ops ++ [prime]) = lowered ops := lowered_snoc_of_ne nofun
  have kinds : some .sup ∈ (ops ++ [prime]).map kind? ↔ some .sup ∈ ops.map kind? := by simp [kind?]
  have count : strokeCount (ops ++ [prime]) = strokeCount ops + 1 := strokeCount_snoc
  have high : raised (ops ++ [prime]) = raised ops ++ [stroke] := by simp [raised]
  unfold Bears
  rw [low]
  cases held with
  | bare free none' =>
    refine ⟨some (.collapse (chain 0)), Script.addPrime_free plain _, .primes (mt kinds.mp free) ?_⟩
    rw [count, none']
  | primes free more =>
    refine ⟨_, Script.addPrime_high _, ?_⟩
    rw [Script.lengthen_chain]
    exact .primes (mt kinds.mp free) (by rw [count, more])
  | exponent earlier same =>
    refine ⟨_, Script.addPrime_high _, ?_⟩
    rw [Script.lengthen_braces]
    refine .exponent (kinds.mpr earlier) ?_
    rw [Script.strokes_lengthenLast, same, high, Script.unwrapped_append (raised_ne_nil earlier),
      List.flatMap_append]
    rfl

/-- A blocked script is refused. -/
theorem Bears.blocked (plain : Script.Plain base) (bears : Bears base ops node)
    (blocked : Blocked ops kind) :
    put kind (.braces nodes) [node] = .error (.doubleScript kind) := by
  obtain ⟨sup, rfl, held⟩ := bears
  rw [Script.put_formed plain]
  cases kind with
  | sub =>
    rcases blocked with earlier | ⟨absurd, -⟩
    · obtain ⟨low, held⟩ := lowered_ne_nil earlier
      rw [held, Script.join?_low_twice]
    · cases absurd
  | sup =>
    have group : ∃ held, sup = some (.braces held) := by
      cases held with
      | bare free none' =>
        rcases blocked with earlier | ⟨-, many⟩
        · exact absurd earlier free
        · omega
      | @primes more free count =>
        rcases blocked with earlier | ⟨-, many⟩
        · exact absurd earlier free
        · exact ⟨chain more, by rw [Script.collapse_chain (by omega)]⟩
      | @exponent held => exact ⟨held, rfl⟩
    obtain ⟨held, rfl⟩ := group
    rw [Script.join?_high_twice]
    rfl

theorem length_lowered : (lowered ops).length = (ops.map kind?).count (some .sub) := by
  induction ops with
  | nil => rfl
  | cons op rest ih =>
    unfold lowered at ih ⊢
    rw [List.flatMap_cons, List.length_append, ih, List.map_cons, List.count_cons]
    cases op with
    | prime => simp [kind?]
    | script kind words nodes =>
      cases kind with
      | sub => simp [kind?, Nat.add_comm]
      | sup => simp [kind?]

theorem lowered_once (acceptable : Acceptable ops) : (lowered ops).head?.toList = lowered ops := by
  have once := acceptable.sub
  rw [← length_lowered] at once
  match lowered ops, once with
  | [], _ => rfl
  | [low], _ => rfl

/-- A superscript holds what the operations put there, in the order written. -/
theorem Raised.shown (held : Raised ops sup) :
    (sup = none ↔ raised ops = []) ∧
      (unwrapped sup.toList).flatMap Script.strokes = (unwrapped (raised ops)).flatMap Script.strokes := by
  cases held with
  | bare free none' =>
    rw [raised_free free, none']
    exact ⟨by simp, rfl⟩
  | @primes more free count =>
    rw [raised_free free, count, Script.unwrapped_replicate, Script.strokes_replicate, Option.toList_some,
      Script.unwrapped_chain, Script.strokes_chain]
    exact ⟨by simp [List.replicate_succ], rfl⟩
  | exponent earlier same =>
    refine ⟨by simp [raised_ne_nil earlier], ?_⟩
    rw [← same, Option.toList_some, Script.unwrapped_braces]

end Operation

/-! ## Reading operations -/

namespace Reader

open Operation (Blocked Acceptable Bears)

variable {symbols : SymbolTable} {terminator : Option String} {consumed : Bool} {base node : Node}
  {front ops : List Operation} {op : Operation} {c : Cursor} {rest : List Token}

theorem token_prime {nested : Nested} {token : Token} {stack : List Node} (text : token.text = "'") :
    Reader.token symbols nested terminator token stack =
      pure ⟨Script.addPrime (stack.head?.getD (.braces [])) :: stack.tail, false⟩ := by
  unfold Reader.token
  rw [text]
  rfl

/-- An operation that is not blocked is read to the node with it. -/
theorem operation_step (plain : Script.Plain base) (known : Closing terminator)
    (bears : Bears base front node) (sound : op.Sound symbols)
    (free : ∀ kind, op.kind? = some kind → ¬ Blocked front kind) (before : Before c op.words rest) :
    ∃ next after, after.tokens = rest ∧ after.pending = none ∧ Bears base (front ++ [op]) next ∧
      unbudgeted symbols terminator .unbounded consumed [node] c =
        unbudgeted symbols terminator .unbounded true [next] after := by
  cases op with
  | prime =>
    obtain ⟨mark, tail, left, text, behind⟩ := Before.next before
    obtain ⟨tokens, texts, split⟩ := behind.words
    obtain rfl := List.map_eq_nil_iff.mp texts
    have read : Reader.token symbols (unbudgetedNested symbols) terminator mark [node] (skip c mark tail) =
        .ok (⟨[Script.addPrime node], false⟩, skip c mark tail) := by
      rw [token_prime text]
      rfl
    exact ⟨_, _, split, behind.free, bears.prime plain,
      unbudgeted_token before.free left (text ▸ known.ne_of (by decide) (by decide)) read⟩
  | script kind words nodes =>
    have placed : ∃ next, Script.put kind (.braces nodes) [node] = .ok [next] ∧
        Bears base (front ++ [.script kind words nodes]) next := by
      cases kind with
      | sub => exact bears.subscript plain (free .sub rfl)
      | sup => exact bears.superscript plain (free .sup rfl)
    obtain ⟨next, put, bears'⟩ := placed
    obtain ⟨after, left, free', goesOn⟩ := Grouped.step sound known before put
    exact ⟨next, after, left, free', bears', goesOn⟩

/-- Acceptable operations are read one by one. -/
theorem operations_run (plain : Script.Plain base) (known : Closing terminator)
    (sound : ∀ op ∈ ops, op.Sound symbols) (acceptable : Acceptable ops)
    (before : Before c (ops.flatMap Operation.words) rest) :
    ∃ node after, after.tokens = rest ∧ after.pending = none ∧ Bears base ops node ∧
      unbudgeted symbols terminator .unbounded true [base] c =
        unbudgeted symbols terminator .unbounded true [node] after := by
  induction ops using List.reverseRecOn generalizing rest with
  | nil =>
    obtain ⟨tokens, texts, split⟩ := before.words
    obtain rfl := List.map_eq_nil_iff.mp texts
    exact ⟨base, c, split, before.free, Operation.bears_nil, rfl⟩
  | append_singleton front op ih =>
    rw [List.flatMap_append] at before
    obtain ⟨tokens, texts, first⟩ := before.split
    have sound' := List.forall_mem_append.mp sound
    obtain ⟨node, mid, left, free, bears, run⟩ := ih sound'.1 acceptable.of_snoc first
    have behind : Before mid op.words rest := ⟨free, tokens, by simpa using texts, left⟩
    obtain ⟨next, after, left', free', bears', step⟩ :=
      operation_step plain known bears (sound'.2 op List.mem_cons_self) acceptable.not_blocked behind
    exact ⟨next, after, left', free', bears', run.trans step⟩

/-- A letter is the base of what is written behind it. -/
theorem letter_step {letter : Char} (isLetter : IsLetter letter)
    (before : Before c [String.singleton letter] rest) :
    ∃ after, after.tokens = rest ∧ after.pending = none ∧
      unbudgeted symbols none .unbounded consumed [] c =
        unbudgeted symbols none .unbounded true [.leaf (String.singleton letter)] after := by
  obtain ⟨first, tail, left, text, behind⟩ := before.next
  obtain ⟨tokens, texts, split⟩ := behind.words
  obtain rfl := List.map_eq_nil_iff.mp texts
  have read : Reader.token symbols (unbudgetedNested symbols) none first [] (skip c first tail) =
      .ok (⟨[.leaf (String.singleton letter)], false⟩, skip c first tail) := by
    rw [token_leaf (text ▸ isLeafWord_of_plain isLetter.startsSpecial_eq_false), text]
    rfl
  exact ⟨_, split, behind.free, unbudgeted_token before.free left nofun read⟩

/-- A letter with acceptable operations behind it is read to one node, whatever follows. -/
theorem letter_run {letter : Char} (isLetter : IsLetter letter) (sound : ∀ op ∈ ops, op.Sound symbols)
    (acceptable : Acceptable ops)
    (before : Before c ([String.singleton letter] ++ ops.flatMap Operation.words) rest) :
    ∃ node after, after.tokens = rest ∧ after.pending = none ∧
      Bears (.leaf (String.singleton letter)) ops node ∧
      unbudgeted symbols none .unbounded false [] c =
        unbudgeted symbols none .unbounded true [node] after := by
  obtain ⟨tail, texts, first⟩ := before.split
  obtain ⟨mid, left, free, start⟩ := letter_step isLetter first
  have behind : Before mid (ops.flatMap Operation.words) rest := ⟨free, tail, texts, left⟩
  obtain ⟨node, after, left', free', bears, run⟩ :=
    operations_run (Script.plain_letter isLetter) closing_none sound acceptable behind
  exact ⟨node, after, left', free', bears, start.trans run⟩

/-- Behind acceptable operations, a blocked script is refused at its mark. -/
theorem letter_blocked {letter : Char} {kind : ScriptKind} {mark : Token} (isLetter : IsLetter letter)
    (sound : ∀ op ∈ ops, op.Sound symbols) (acceptable : Acceptable ops) (blocked : Blocked ops kind)
    (text : mark.text = kind.token)
    (before : Before c ([String.singleton letter] ++ ops.flatMap Operation.words) (mark :: rest)) :
    unbudgeted symbols none .unbounded false [] c = .error (.refused ⟨mark.span, .doubleScript kind⟩) := by
  obtain ⟨node, after, left, free, bears, run⟩ := letter_run isLetter sound acceptable before
  have refused : Script.put kind (.braces []) [node] = .error (.doubleScript kind) :=
    bears.blocked (Script.plain_letter isLetter) blocked
  rw [run, unbudgeted_refused closing_none free left text refused]

end Reader

/-! ## Whole sources -/

namespace Formula

open Operation (Acceptable Blocked lowered raised)
open Script (formed unwrapped strokes)

/-- A letter with scripts and primes behind it. With at most one script of each kind, and no exponent behind
more than four strokes, it is one node, which holds the subscript and, as the superscript, the primes and
the exponent in the order written; an exponent that comes first is the group that the primes behind it go
to. Else the first script that is the second one of its kind, or an exponent behind more than four
strokes, is refused at its mark. -/
theorem letter_scripts (symbols : SymbolTable) {letter : Char} (isLetter : IsLetter letter)
    {ops : List Operation} (sound : ∀ op ∈ ops, op.Sound symbols) {tokens : List Token}
    (texts : tokens.map (·.text) = String.singleton letter :: ops.flatMap Operation.words) (stop : Nat) :
    (Acceptable ops → ∃ low sup,
      ofTokens? symbols tokens stop = .ok [formed (.leaf (String.singleton letter)) low sup] ∧
      low.toList = lowered ops ∧ (sup = none ↔ raised ops = []) ∧
      (unwrapped sup.toList).flatMap strokes = (unwrapped (raised ops)).flatMap strokes) ∧
    (¬ Acceptable ops → ∃ front kind words nodes back taken mark left,
      ops = front ++ .script kind words nodes :: back ∧ Acceptable front ∧ Blocked front kind ∧
      tokens = taken ++ mark :: left ∧
      taken.map (·.text) = String.singleton letter :: front.flatMap Operation.words ∧
      ofTokens? symbols tokens stop = .error (.refused ⟨mark.span, .doubleScript kind⟩)) := by
  have run : ofTokens? symbols tokens stop = (Reader.unbudgeted symbols none .unbounded false []
      { tokens, last := ⟨0, 0⟩, stop }).map (·.1) := by
    rw [ofTokens?_eq, unbudgetedTokens?]
    cases tokens with
    | nil => cases texts
    | cons first rest => rfl
  refine ⟨fun acceptable => ?_, fun refused => ?_⟩
  · have whole : Reader.Before { tokens, last := ⟨0, 0⟩, stop }
        (String.singleton letter :: ops.flatMap Operation.words) [] :=
      ⟨rfl, tokens, texts, (List.append_nil tokens).symm⟩
    obtain ⟨node, after, done, free, ⟨sup, rfl, held⟩, goesOn⟩ :=
      Reader.letter_run isLetter sound acceptable whole
    refine ⟨(lowered ops).head?, sup, ?_, ?_, held.shown⟩
    · rw [run, goesOn, Reader.unbudgeted_end free done]
      rfl
    · exact Operation.lowered_once acceptable
  · obtain ⟨front, kind, words, nodes, back, rfl, acceptable, blocked⟩ := Operation.exists_blocked refused
    rw [List.flatMap_append, List.flatMap_cons, ← List.cons_append] at texts
    obtain ⟨taken, remaining, rfl, texts', behind⟩ := List.map_eq_append_iff.mp texts
    obtain ⟨mark, left, rfl, text, -⟩ := List.map_eq_cons_iff.mp behind
    have sound' : ∀ op ∈ front, op.Sound symbols :=
      fun op mem => sound op (List.mem_append_left _ mem)
    refine ⟨front, kind, words, nodes, back, taken, mark, left, rfl, acceptable, blocked, rfl, texts', ?_⟩
    rw [run, Reader.letter_blocked isLetter sound' acceptable blocked text ⟨rfl, taken, texts', rfl⟩]
    rfl

/-- Primes on both sides of an exponent, and a subscript; and a second subscript. -/
theorem letter_scripts_mixed :
    let sub : Operation := .script .sub ["i"] [.leaf "i"]
    let sup : Operation := .script .sup ["2"] [.leaf "2"]
    let tokens := Source.tokens .known "x'^\x7b2\x7d_\x7bi\x7d'"
    let tokens' := Source.tokens .known "x_\x7bi\x7d'_\x7bi\x7d"
    IsLetter 'x' ∧ (∀ op ∈ [.prime, sup, sub, .prime], op.Sound .known) ∧
      tokens.map (·.text) = "x" :: [.prime, sup, sub, .prime].flatMap Operation.words ∧
      Acceptable [.prime, sup, sub, .prime] ∧
      (∃ low sup', ofTokens? .known tokens 11 = .ok [formed (.leaf "x") low sup'] ∧
        low.toList = lowered [.prime, sup, sub, .prime] ∧
        (sup' = none ↔ raised [.prime, sup, sub, .prime] = []) ∧
        (unwrapped sup'.toList).flatMap strokes =
          (unwrapped (raised [.prime, sup, sub, .prime])).flatMap strokes) ∧
      (∀ op ∈ [sub, .prime, sub], op.Sound .known) ∧
      tokens'.map (·.text) = "x" :: [sub, .prime, sub].flatMap Operation.words ∧
      ¬ Acceptable [sub, .prime, sub] ∧
      ∃ front kind words nodes back taken mark left,
        [sub, .prime, sub] = front ++ .script kind words nodes :: back ∧ Acceptable front ∧
        Blocked front kind ∧ tokens' = taken ++ mark :: left ∧
        taken.map (·.text) = "x" :: front.flatMap Operation.words ∧
        ofTokens? .known tokens' 10 = .error (.refused ⟨mark.span, .doubleScript kind⟩) := by
  intro sub sup tokens tokens'
  have letter : IsLetter 'x' := .inl rfl
  have low : sub.Sound .known :=
    ⟨by decide, Source.tokens .known "\x7bi\x7d", 3, by decide +kernel, by decide +kernel⟩
  have high : sup.Sound .known :=
    ⟨by decide, Source.tokens .known "\x7b2\x7d", 3, by decide +kernel, by decide +kernel⟩
  have sound : ∀ op ∈ [.prime, sup, sub, .prime], op.Sound .known := by
    simp [low, high, Operation.sound_prime]
  have sound' : ∀ op ∈ [sub, .prime, sub], op.Sound .known := by simp [low, Operation.sound_prime]
  have texts : tokens.map (·.text) = "x" :: [.prime, sup, sub, .prime].flatMap Operation.words := by
    decide +kernel
  have texts' : tokens'.map (·.text) = "x" :: [sub, .prime, sub].flatMap Operation.words := by
    decide +kernel
  have acceptable : Acceptable [.prime, sup, sub, .prime] := by
    refine ⟨by decide, by decide, fun front words nodes back split => ?_⟩
    have few : Operation.strokeCount (front ++ .script .sup words nodes :: back) ≤ 4 := split ▸ (by decide)
    rw [Operation.strokeCount, List.map_append, List.count_append] at few
    exact Nat.le_of_add_right_le few
  have refused : ¬ Acceptable [sub, .prime, sub] := fun acceptable => absurd acceptable.sub (by decide)
  exact ⟨letter, sound, texts, acceptable, (letter_scripts .known letter sound texts 11).1 acceptable, sound',
    texts', refused, (letter_scripts .known letter sound' texts' 10).2 refused⟩

/-- An exponent behind five strokes is refused, though there is only one. -/
theorem exponent_behind_strokes_refused :
    let ops : List Operation :=
      [.prime, .prime, .prime, .prime, .prime, .script .sup ["2"] [.leaf "2"]]
    let tokens := Source.tokens .known "x'''''^\x7b2\x7d"
    (∀ op ∈ ops, op.Sound .known) ∧ tokens.map (·.text) = "x" :: ops.flatMap Operation.words ∧
      (ops.map Operation.kind?).count (some .sub) = 0 ∧
      (ops.map Operation.kind?).count (some .sup) = 1 ∧
      ofTokens? .known tokens 10 = .error (.refused ⟨⟨6, 7⟩, .doubleScript .sup⟩) := by
  intro ops tokens
  have high : Operation.Sound .known (.script .sup ["2"] [.leaf "2"]) :=
    ⟨by decide, Source.tokens .known "\x7b2\x7d", 3, by decide +kernel, by decide +kernel⟩
  refine ⟨?_, by decide +kernel, by decide, by decide, by decide +kernel⟩
  simp [ops, high, Operation.sound_prime]

end Formula

end FormulaMarkup

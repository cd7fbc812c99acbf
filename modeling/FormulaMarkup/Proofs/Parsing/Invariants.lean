import FormulaMarkup.Proofs.Parsing.Parts

/-!
Invariants of parsed nodes. A property of nodes that every way to make a node keeps, and that the
leaves have which end sequences, holds for the nodes of all sequences. It may need the texts of the
tokens to have a property of their own, which a raw text then has as well.
-/
namespace FormulaMarkup

open Wait

/-- A property of nodes that is kept by all that is made of tokens with a property. -/
structure Invariant (symbols : SymbolTable) (fine : String → Prop) (good : Node → Prop) : Prop where
  makes : ∀ {terminator text stack held start progress}, fine text → start = Start.of symbols text →
    (∀ node ∈ stack, good node) → (∀ nodes ∈ held, ∀ node ∈ nodes, good node) →
    (start = .command (some .rawText) → ∀ first ∈ progress.stack.head?, ∀ raw ∈ first.text, fine raw) →
    Makes symbols terminator text stack start held progress → ∀ node ∈ progress.stack, good node
  marker : ∀ {text delimiter}, fine text → Closing (some text) →
    good { Node.leaf text with delimiter }

theorem Reader.Parted.forall_iff {terminator : Option String} {all nodes : List Node}
    {marker : Option Node} (parted : Reader.Parted terminator all nodes marker) {p : Node → Prop} :
    (∀ node ∈ all, p node) ↔ (∀ node ∈ nodes, p node) ∧ ∀ node ∈ marker.toList, p node := by
  rw [parted.whole, List.forall_mem_append]

namespace Cursor

variable {fine : String → Prop} {good : Node → Prop} {c after : Cursor}

/-- The tokens that are left have a property, and so has the node that is owed. -/
def Meets (fine : String → Prop) (good : Node → Prop) (c : Cursor) : Prop :=
  (∀ token ∈ c.tokens, fine token.text) ∧ ∀ node ∈ c.pending, good node

theorem Meets.suffix (here : c.Meets fine good) (left : after.tokens <:+ c.tokens)
    (owed : after.pending = c.pending) : after.Meets fine good :=
  ⟨fun token mem => here.1 token (left.subset mem), fun node mem => here.2 node (owed ▸ mem)⟩

theorem Meets.skip {next : Token} {rest : List Token} (here : c.Meets fine good)
    (left : c.tokens = next :: rest) : (Reader.skip c next rest).Meets fine good := by
  refine here.suffix ?_ rfl
  rw [left]
  exact List.suffix_cons next rest

end Cursor

namespace Reader

variable {symbols : SymbolTable} {fine : String → Prop} {good : Node → Prop} {nested : Nested}
  {terminator : Option String} {c after : Cursor}

/-- Readers of what is nested that keep an invariant. -/
structure KeepsNested (fine : String → Prop) (good : Node → Prop) (nested : Nested) : Prop where
  raw : nested.raw = rawArgument
  sequence : ∀ {terminator limit c nodes after}, Closing terminator → c.Meets fine good →
    nested.sequence terminator limit c = .ok (nodes, after) →
    (∀ node ∈ nodes, good node) ∧ after.Meets fine good

/-- A command is read by its shape. -/
theorem token_command {token : Token} {stack : List Node} {progress : Progress} {shape : Option Shape}
    (starts : Start.of symbols token.text = .command shape)
    (given : Reader.token symbols nested terminator token stack c = .ok (progress, after)) :
    shape? symbols token.text = shape ∧
      command symbols nested terminator token stack c = .ok (progress, after) := by
  unfold Start.of at starts
  split at starts
  · cases starts
  rename_i environment
  split at starts
  · cases starts
  rename_i left
  split at starts
  · cases starts
  rename_i group
  split at starts
  · cases starts
  rename_i sub
  split at starts
  · cases starts
  rename_i sup
  split at starts
  · cases starts
  rename_i prime
  refine ⟨Start.command.inj starts, ?_⟩
  unfold Reader.token at given
  dsimp only at given
  split at given
  · exact absurd given refuse_ne_ok
  split at given
  · exact absurd given refuse_ne_ok
  simpa [environment, left, group, sub, sup, prime] using given

section Nested

variable (keeps : KeepsNested fine good nested)

include keeps

theorem optional_meets {nodes : List Node} (known : Closing terminator) (here : c.Meets fine good)
    (given : optional nested terminator c = .ok (nodes, after)) :
    (∀ node ∈ nodes, good node) ∧ after.Meets fine good := by
  rcases optional_ok given with ⟨-, -, rfl, rfl⟩ | ⟨-, read⟩
  · exact ⟨List.forall_mem_nil _, here⟩
  · exact keeps.sequence known here read

theorem part_meets {first : Part} {nodes : List Node} (known : Closing terminator)
    (ends : first.Known) (here : c.Meets fine good)
    (given : part nested terminator first c = .ok (nodes, after)) :
    (∀ node ∈ nodes, good node) ∧ after.Meets fine good := by
  cases part_ok keeps.raw given with
  | opening left | raw left | delimiter left => exact ⟨List.forall_mem_nil _, here.skip left⟩
  | noDelimiter => exact ⟨List.forall_mem_nil _, here⟩
  | fence taken free free' behind =>
    exact ⟨List.forall_mem_nil _, here.suffix behind (free'.trans free.symm)⟩
  | nodes read => exact keeps.sequence known here read
  | within read => exact optional_meets keeps ends here read
  | rest read => exact optional_meets keeps known here read

theorem readParts_meets {parts : List Part} {held : List (List Node)} (known : Closing terminator)
    (ends : ∀ part ∈ parts, part.Known) (here : c.Meets fine good)
    (given : readParts nested terminator parts c = .ok (held, after)) :
    (∀ nodes ∈ held, ∀ node ∈ nodes, good node) ∧ after.Meets fine good := by
  induction parts generalizing c held with
  | nil =>
    obtain ⟨rfl, rfl⟩ := pure_ok_iff.mp given
    exact ⟨nofun, here⟩
  | cons first rest ih =>
    obtain ⟨nodes, others, mid, rfl, read, behind⟩ := readParts_cons_ok given
    obtain ⟨all, here'⟩ := part_meets keeps known (ends first List.mem_cons_self) here read
    obtain ⟨others', last⟩ := ih (fun part mem => ends part (List.mem_cons_of_mem _ mem)) here' behind
    refine ⟨fun other mem => ?_, last⟩
    rcases List.mem_cons.mp mem with rfl | mem
    · exact all
    · exact others' other mem

/-- The raw text of a node is that of a token. -/
theorem rawText_fine {token : Token} {stack : List Node} {progress : Progress}
    (here : c.Meets fine good) (starts : Start.of symbols token.text = .command (some .rawText))
    (given : Reader.token symbols nested terminator token stack c = .ok (progress, after)) :
    ∀ first ∈ progress.stack.head?, ∀ raw ∈ first.text, fine raw := by
  obtain ⟨shape, read⟩ := token_command starts given
  unfold command at read
  rw [shape] at read
  obtain ⟨raw, _, taken, read⟩ := bind_ok_iff.mp read
  obtain ⟨rfl, rfl⟩ := pure_ok_iff.mp read
  rw [keeps.raw] at taken
  obtain ⟨-, next, rest, left, rfl, -, -⟩ := rawArgument_ok taken
  rintro _ ⟨⟩ _ ⟨⟩
  exact here.1 next (left ▸ List.mem_cons_self)

theorem token_meets (invariant : Invariant symbols fine good) {token : Token} {stack : List Node}
    {progress : Progress} (known : Closing terminator) (text : fine token.text)
    (above : ∀ node ∈ stack, good node) (here : c.Meets fine good)
    (given : Reader.token symbols nested terminator token stack c = .ok (progress, after)) :
    (∀ node ∈ progress.stack, good node) ∧ after.Meets fine good := by
  obtain ⟨held, read, made⟩ := token_ok given
  obtain ⟨all, last⟩ := readParts_meets keeps known (Start.parts_known _ _ _) here read
  have raw := fun starts => rawText_fine keeps here starts given
  exact ⟨invariant.makes text rfl above all raw made, last⟩

end Nested

theorem close_meets {limit : Limit} {consumed : Bool} {stack nodes : List Node}
    (above : ∀ node ∈ stack, good node) (here : c.Meets fine good)
    (given : Reader.close terminator limit consumed stack c = .ok (nodes, after)) :
    (∀ node ∈ nodes, good node) ∧ after.Meets fine good := by
  rcases close_ok given with ⟨-, rfl, rfl⟩ | ⟨_, marker, rest, -, rfl, -, -, rfl, rfl⟩ |
    ⟨_, -, -, -, rfl, rfl⟩
  · exact ⟨fun node mem => above node (List.mem_reverse.mp mem), here⟩
  · obtain ⟨first, below⟩ := List.forall_mem_cons.mp above
    refine ⟨fun node mem => below node (List.mem_reverse.mp mem), here.1, ?_⟩
    rintro _ ⟨⟩
    exact first
  · exact ⟨fun node mem => above node (List.mem_reverse.mp mem), here⟩

theorem marker_meets (invariant : Invariant symbols fine good) {text : String} {node : Node}
    (fits : fine text) (known : Closing (some text)) (here : c.Meets fine good)
    (given : marker text c = .ok (node, after)) : good node ∧ after.Meets fine good := by
  obtain ⟨delimiter, rfl, ⟨-, rfl⟩ | ⟨-, -, rfl⟩ | ⟨next, rest, -, left, rfl⟩⟩ := marker_ok given
  · exact ⟨invariant.marker fits known, here⟩
  · exact ⟨invariant.marker fits known, here⟩
  · exact ⟨invariant.marker fits known, here.skip left⟩

/-- What is read into a sequence keeps an invariant, and so does what is owed behind it. -/
theorem sequence_meets (invariant : Invariant symbols fine good) {limit : Limit} {budget : Nat}
    {consumed : Bool} {stack nodes : List Node} (known : Closing terminator)
    (above : ∀ node ∈ stack, good node) (here : c.Meets fine good)
    (given : sequence symbols terminator limit budget consumed stack c = .ok (nodes, after)) :
    (∀ node ∈ nodes, good node) ∧ after.Meets fine good := by
  induction budget generalizing terminator limit consumed stack c nodes after with
  | zero => cases given
  | succ budget ih =>
    have keeps : KeepsNested fine good (nestedAt symbols budget) :=
      ⟨rfl, fun known here read => ih known (List.forall_mem_nil _) here read⟩
    cases sequence_ok given with
    | owed owes unbounded made left =>
      subst made left
      refine ⟨fun node mem => ?_, here.1, by rintro _ ⟨⟩⟩
      rcases List.mem_cons.mp (List.mem_reverse.mp mem) with rfl | mem
      · exact here.2 _ owes
      · exact above node mem
    | ended free done closed => exact close_meets above here closed
    | @closed next rest node free left closes unbounded marked made =>
      subst made
      have fits := here.1 next (left ▸ List.mem_cons_self)
      obtain ⟨good', last⟩ := marker_meets invariant fits (closes ▸ known) (here.skip left) marked
      refine ⟨fun other mem => ?_, last⟩
      rcases List.mem_cons.mp (List.mem_reverse.mp mem) with rfl | mem
      · exact good'
      · exact above other mem
    | @last next rest progress mid free left other read full closed =>
      have fits := here.1 next (left ▸ List.mem_cons_self)
      obtain ⟨all, between⟩ := token_meets keeps invariant known fits above (here.skip left) read
      exact close_meets all between closed
    | @more next rest progress mid free left other read space again =>
      have fits := here.1 next (left ▸ List.mem_cons_self)
      obtain ⟨all, between⟩ := token_meets keeps invariant known fits above (here.skip left) read
      exact ih known all between again

end Reader

namespace Formula

/-- All nodes of a source keep an invariant. -/
theorem ofTokens?_meets {symbols : SymbolTable} {fine : String → Prop} {good : Node → Prop}
    (invariant : Invariant symbols fine good) {tokens : List Token} {stop : Nat} {nodes : List Node}
    (texts : ∀ token ∈ tokens, fine token.text)
    (read : ofTokens? symbols tokens stop = .ok nodes) : ∀ node ∈ nodes, good node := by
  rcases ofTokens?_ok read with ⟨-, rfl⟩ | ⟨after, given⟩
  · exact List.forall_mem_nil _
  · have start : Cursor.Meets fine good { tokens, last := ⟨0, 0⟩, stop } := by
      refine ⟨texts, ?_⟩
      rintro _ ⟨⟩
    exact (Reader.sequence_meets invariant closing_none (List.forall_mem_nil _) start given).1

end Formula

end FormulaMarkup

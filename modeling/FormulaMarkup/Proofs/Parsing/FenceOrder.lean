import FormulaMarkup.Proofs.Parsing.Trace

/-!
The delimiters of a trace are tokens of the source, and stand there in this order. Each one is named
for what it is.
-/
namespace FormulaMarkup

open Reader (skip)

theorem text_of_leftRight {symbols : SymbolTable} {text : String}
    (starts : Start.of symbols text = .leftRight) : text = "\\left" := by
  unfold Start.of at starts
  split at starts
  · cases starts
  split at starts
  · rename_i left
    exact left
  repeat (split at starts; · cases starts)
  cases starts

namespace Fence

def token : Fence → Token
  | opens token => token
  | closes token => token

def word : Fence → String
  | opens _ => "\\left"
  | closes _ => "\\right"

end Fence

/-- The delimiters of a trace are tokens that are taken between two cursors, in this order. -/
structure Follows (c : Cursor) (events : List Event) (after : Cursor) : Prop where
  order : List.Sublist ((fences events).map Fence.token ++ after.tokens) c.tokens
  named : ∀ pair ∈ fences events, pair.token.text = pair.word

namespace Follows

variable {c mid after : Cursor} {front back events : List Event}

theorem trans (first : Follows c front mid) (second : Follows mid back after) :
    Follows c (front ++ back) after := by
  refine ⟨?_, ?_⟩
  · rw [fences_append, List.map_append, List.append_assoc]
    exact (second.order.append_left _).trans first.order
  · rw [fences_append]
    exact List.forall_mem_append.mpr ⟨first.named, second.named⟩

/-- Nothing but other tokens is taken. -/
theorem of_suffix (none : fences events = []) (behind : after.tokens <:+ c.tokens) :
    Follows c events after := by
  refine ⟨?_, ?_⟩
  · rw [none]
    exact behind.sublist
  · rw [none]
    exact nofun

theorem of_skip {next : Token} {rest : List Token} (none : fences events = [])
    (left : c.tokens = next :: rest) : Follows c events (skip c next rest) := by
  refine of_suffix none ?_
  rw [left]
  exact List.suffix_cons next rest

/-- A token in front of what is taken. -/
theorem cons {next : Token} {rest : List Token} (left : c.tokens = next :: rest)
    (follows : Follows (skip c next rest) events after) : Follows c events after :=
  (of_skip fences_nil left).trans follows

end Follows

namespace Reader

/-- Nested readers whose traces follow the order of the tokens. -/
structure KeepsOrder (nested : Nested) (inner : Option String → Limit → Cursor → List Event) :
    Prop extends Traced nested inner where
  sequence : ∀ {terminator limit c nodes after},
    nested.sequence terminator limit c = .ok (nodes, after) → Follows c (inner terminator limit c) after

section Nested

variable {nested : Nested} {inner : Option String → Limit → Cursor → List Event}
  {terminator : Option String} {c after : Cursor} (keeps : KeepsOrder nested inner)

include keeps

theorem optional_follows {nodes : List Node}
    (given : optional nested terminator c = .ok (nodes, after)) :
    Follows c (inner terminator .unbounded c) after := by
  rcases optional_ok given with ⟨free, done, rfl, rfl⟩ | ⟨-, read⟩
  · rw [keeps.ended free done]
    exact .of_suffix fences_nil (List.suffix_refl _)
  · exact keeps.sequence read

theorem part_follows {first : Part} {held : List Node}
    (given : part nested terminator first c = .ok (held, after)) :
    Follows c (partTrace nested inner terminator c first) after := by
  cases part_ok keeps.raw given with
  | opening left => exact .of_skip fences_nil left
  | raw left | delimiter left => exact .of_skip (fences_setAsideAll _ _) left
  | noDelimiter => exact .of_suffix (fences_setAsideAll _ _) (List.suffix_refl _)
  | fence taken free free' behind =>
    rw [partTrace, taken]
    exact .of_suffix (fences_setAsideAll _ _) behind
  | nodes read => exact keeps.sequence read
  | within read | rest read => exact optional_follows keeps read

theorem readParts_follows {parts : List Part} {held : List (List Node)}
    (given : readParts nested terminator parts c = .ok (held, after)) :
    Follows c (partsTrace nested inner terminator parts c) after := by
  induction parts generalizing c held with
  | nil =>
    obtain ⟨rfl, rfl⟩ := pure_ok_iff.mp given
    exact .of_suffix fences_nil (List.suffix_refl _)
  | cons first rest ih =>
    obtain ⟨nodes, others, mid, rfl, read, behind⟩ := readParts_cons_ok given
    rw [partsTrace_cons read]
    exact (part_follows keeps read).trans (ih behind)

theorem token_follows {symbols : SymbolTable} {next : Token} {rest : List Token} {stack : List Node}
    {progress : Progress} (left : c.tokens = next :: rest)
    (given : Reader.token symbols nested terminator next stack (skip c next rest) =
      .ok (progress, after)) :
    Follows c (tokenTrace symbols nested inner terminator next (skip c next rest)) after := by
  obtain ⟨held, read, -⟩ := token_ok given
  have opened : Follows c
      (if Start.of symbols next.text = .leftRight then [.fence (.opens next)] else [])
      (skip c next rest) := by
    split
    · rename_i starts
      refine ⟨?_, List.forall_mem_singleton.mpr (text_of_leftRight starts)⟩
      rw [left]
      exact List.Sublist.refl _
    · exact .of_skip fences_nil left
  rw [tokenTrace_ok rfl read]
  exact (opened.trans (readParts_follows keeps read)).trans
    (.of_suffix (fences_events _ _ _) (List.suffix_refl _))

end Nested

section

variable {terminator : Option String} {c after : Cursor}

theorem close_follows {limit : Limit} {consumed : Bool} {stack nodes : List Node}
    (given : Reader.close terminator limit consumed stack c = .ok (nodes, after)) :
    Follows c [] after := by
  rcases close_ok given with ⟨-, -, rfl⟩ | ⟨_, marker, rest, -, -, -, -, -, rfl⟩ |
    ⟨_, -, -, -, -, rfl⟩
  · exact .of_suffix fences_nil (List.suffix_refl _)
  · exact .of_suffix fences_nil (List.suffix_refl c.tokens)
  · exact .of_suffix fences_nil (List.suffix_refl _)

theorem marker_follows {next : Token} {rest : List Token} {node : Node} (left : c.tokens = next :: rest)
    (given : marker next.text (skip c next rest) = .ok (node, after)) :
    Follows c (markerTrace next rest) after := by
  obtain ⟨delimiter, -, moved⟩ := marker_ok given
  unfold markerTrace
  split
  · rename_i right
    have behind : after.tokens <:+ rest := by
      rcases moved with ⟨-, rfl⟩ | ⟨-, -, rfl⟩ | ⟨text, rest', -, left', rfl⟩
      · exact List.suffix_refl _
      · exact List.suffix_refl _
      · obtain rfl : rest = text :: rest' := left'
        exact List.suffix_cons _ _
    refine ⟨?_, ?_⟩
    · rw [left, fences_fence, fences_setAsideAll]
      exact behind.sublist.cons_cons next
    · rw [fences_fence, fences_setAsideAll]
      exact List.forall_mem_singleton.mpr right
  · rename_i other
    rcases moved with ⟨-, rfl⟩ | ⟨right, -, -⟩ | ⟨_, _, right, -, -⟩
    · exact .of_skip fences_nil left
    · exact absurd right other
    · exact absurd right other

theorem sequence_follows {symbols : SymbolTable} {limit : Limit} {budget : Nat} {consumed : Bool}
    {stack nodes : List Node}
    (given : sequence symbols terminator limit budget consumed stack c = .ok (nodes, after)) :
    Follows c (trace symbols terminator limit budget stack c) after := by
  induction budget generalizing terminator limit consumed stack c nodes after with
  | zero => cases given
  | succ budget ih =>
    have keeps : KeepsOrder (nestedAt symbols budget) (innerTrace symbols budget) :=
      ⟨traced_nestedAt symbols budget, ih⟩
    cases sequence_ok given with
    | owed owes unbounded made left =>
      subst left
      rw [trace_owed owes]
      exact .of_suffix fences_nil (List.suffix_refl c.tokens)
    | ended free done closed =>
      rw [trace_ended free done]
      exact close_follows closed
    | closed free left closes unbounded marked made =>
      subst unbounded
      rw [trace_closed free left closes]
      exact marker_follows left marked
    | last free left other read full closed =>
      rw [trace_last free left other read full, ← List.append_nil (tokenTrace ..)]
      exact (token_follows keeps left read).trans (close_follows closed)
    | more free left other read space again =>
      rw [trace_more free left other read space]
      exact (token_follows keeps left read).trans (ih again)

end

end Reader

end FormulaMarkup

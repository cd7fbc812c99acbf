import FormulaMarkup.Formula.Reader

/-!
Two readers that do the same from a cursor. A condition on the cursor before leads to one on the
value and the cursor behind, and neither reader uses up its budget. Refused sources meet every
condition. The rules follow the way readers are put together, so that one walk over a reader gives
both what it returns and that it may be handed one reader of sequences in place of another.
-/
namespace FormulaMarkup.Reader

/-- A reader keeps within its budget, and what it gives meets a condition. -/
def Ends {α : Type} (r : Reader α) (c : Cursor) (post : α → Cursor → Prop) : Prop :=
  match r c with
  | .ok (value, after) => post value after
  | .error failure => failure ≠ .exhausted

/-- Two readers do the same from a cursor, and what they give meets a condition. -/
def Same {α : Type} (r s : Reader α) (c : Cursor) (post : α → Cursor → Prop) : Prop :=
  r c = s c ∧ Ends s c post

variable {α β : Type} {c : Cursor}

theorem bind_ok {r : Reader α} {f : α → Reader β} {a : α} {after : Cursor}
    (given : r c = .ok (a, after)) : (r >>= f) c = f a after := by
  simp [bind, StateT.bind, given, Except.bind]

theorem bind_error {r : Reader α} {f : α → Reader β} {failure : Failure}
    (given : r c = .error failure) : (r >>= f) c = .error failure := by
  simp [bind, StateT.bind, given, Except.bind]

/-! ## What the readers of one token give -/

theorem get_ok (c : Cursor) : (get : Reader Cursor) c = .ok (c, c) := rfl

theorem nextIs_ok (text : String) (c : Cursor) :
    nextIs text c = .ok (c.tokens.head?.any (·.text == text), c) := rfl

theorem nextSpan_ok (c : Cursor) : ∃ span, nextSpan c = .ok (span, c) := by
  obtain ⟨tokens, last, stop, pending⟩ := c
  cases tokens with
  | nil => exact ⟨⟨stop, stop⟩, rfl⟩
  | cons token rest => exact ⟨token.span, rfl⟩

theorem next?_nil (done : c.tokens = []) : next? c = .ok (none, c) := by
  unfold next?
  rw [done]

theorem next?_cons {token : Token} {rest : List Token} (left : c.tokens = token :: rest) :
    next? c = .ok (some token, { c with tokens := rest, last := token.span }) := by
  unfold next?
  rw [left]

/-! ## Rules -/

namespace Same

theorem of_ok {r : Reader α} {post : α → Cursor → Prop} {a : α} {after : Cursor}
    (given : r c = .ok (a, after)) (holds : post a after) : Same r r c post := by
  refine ⟨rfl, ?_⟩
  rw [Ends, given]
  exact holds

theorem pure {a : α} {post : α → Cursor → Prop} (holds : post a c) :
    Same (Pure.pure a) (Pure.pure a) c post :=
  of_ok rfl holds

theorem refuse {span : Span} {cause : Cause} {post : α → Cursor → Prop} :
    Same (Reader.refuse span cause) (Reader.refuse span cause) c post := by
  refine ⟨rfl, ?_⟩
  intro absurd
  cases absurd

theorem mono {r s : Reader α} {weak strong : α → Cursor → Prop} (same : Same r s c strong)
    (weaker : ∀ a after, strong a after → weak a after) : Same r s c weak := by
  refine ⟨same.1, ?_⟩
  have ends := same.2
  unfold Ends at ends ⊢
  cases given : s c with
  | error failure => rwa [given] at ends
  | ok result =>
    rw [given] at ends
    exact weaker _ _ ends

theorem and {r s : Reader α} {one two : α → Cursor → Prop} (first : Same r s c one)
    (second : Same r s c two) : Same r s c fun a after => one a after ∧ two a after := by
  refine ⟨first.1, ?_⟩
  have ends := first.2
  have ends' := second.2
  unfold Ends at ends ends' ⊢
  cases given : s c with
  | error failure => rwa [given] at ends
  | ok result =>
    rw [given] at ends ends'
    exact ⟨ends, ends'⟩

theorem bind {r s : Reader α} {f g : α → Reader β} {mid : α → Cursor → Prop}
    {post : β → Cursor → Prop} (first : Same r s c mid)
    (andThen : ∀ a after, mid a after → Same (f a) (g a) after post) :
    Same (r >>= f) (s >>= g) c post := by
  obtain ⟨same, ends⟩ := first
  unfold Ends at ends
  cases given : s c with
  | error failure =>
    rw [given] at same ends
    refine ⟨by rw [bind_error same, bind_error given], ?_⟩
    rw [Ends, bind_error given]
    exact ends
  | ok result =>
    obtain ⟨a, after⟩ := result
    rw [given] at same ends
    obtain ⟨same', ends'⟩ := andThen a after ends
    refine ⟨by rw [bind_ok same, bind_ok given, same'], ?_⟩
    rw [Ends, bind_ok given]
    exact ends'

/-- A first reader of which it is known what it gives. -/
theorem step {r : Reader α} {f g : α → Reader β} {post : β → Cursor → Prop} {a : α}
    {after : Cursor} (given : r c = .ok (a, after)) (andThen : Same (f a) (g a) after post) :
    Same (r >>= f) (r >>= g) c post := by
  refine ⟨by rw [bind_ok given, bind_ok given, andThen.1], ?_⟩
  rw [Ends, bind_ok given]
  exact andThen.2

theorem refuseLast {cause : Cause} {post : α → Cursor → Prop} :
    Same (lastSpan >>= fun span => Reader.refuse span cause)
      (lastSpan >>= fun span => Reader.refuse span cause) c post :=
  step (a := c.last) rfl refuse

theorem refuseNext {cause : Cause} {post : α → Cursor → Prop} :
    Same (nextSpan >>= fun span => Reader.refuse span cause)
      (nextSpan >>= fun span => Reader.refuse span cause) c post := by
  obtain ⟨span, given⟩ := nextSpan_ok c
  exact step given refuse

end Same

end FormulaMarkup.Reader

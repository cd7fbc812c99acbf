import FormulaMarkup.Proofs.Parsing.Terminator

/-!
How the readers of arguments keep the terminator protocol. They are run with two readers of sequences
at once, and what relates the two runs is followed along a trail: it holds of the readers of single
tokens and is kept where readers are put one behind the other. So one walk over the readers serves for
a watched parse beside a plain one, and for any other two runs that a trail keeps together.
-/
namespace FormulaMarkup

open Wait

/-- What relates two readers from a cursor on, with a condition on what they give, and is kept along a
trail. A reader that looks at the next token is only met where the trail still waits for something. -/
structure Followed (trail : Trail)
    (rel : {α : Type} → Reader α → Reader α → Cursor → (α → Cursor → Prop) → Prop) : Prop where
  pure : ∀ {α : Type} {a : α} {c : Cursor} {post : α → Cursor → Prop}, post a c →
    rel (Pure.pure a) (Pure.pure a) c post
  bind : ∀ {α β : Type} {r s : Reader α} {f g : α → Reader β} {c : Cursor}
    {mid : α → Cursor → Prop} {post : β → Cursor → Prop}, rel r s c mid →
    (∀ a after, mid a after → rel (f a) (g a) after post) → rel (r >>= f) (s >>= g) c post
  mono : ∀ {α : Type} {r s : Reader α} {c : Cursor} {weak strong : α → Cursor → Prop},
    rel r s c strong → (∀ a after, strong a after → weak a after) → rel r s c weak
  refuse : ∀ {α : Type} {span : Span} {cause : Cause} {c : Cursor} {post : α → Cursor → Prop},
    rel (Reader.refuse span cause) (Reader.refuse span cause) c post
  refuseLast : ∀ {α : Type} {cause : Cause} {c : Cursor} {post : α → Cursor → Prop},
    rel (Reader.lastSpan >>= fun span => Reader.refuse span cause)
      (Reader.lastSpan >>= fun span => Reader.refuse span cause) c post
  refuseNext : ∀ {α : Type} {cause : Cause} {c : Cursor} {post : α → Cursor → Prop},
    rel (Reader.nextSpan >>= fun span => Reader.refuse span cause)
      (Reader.nextSpan >>= fun span => Reader.refuse span cause) c post
  takePending : ∀ {α : Type} {f g : Option Node → Reader α} {c : Cursor} {post : α → Cursor → Prop},
    rel (f c.pending) (g c.pending) { c with pending := none } post →
    rel (Reader.takePending >>= f) (Reader.takePending >>= g) c post
  owe : ∀ {marker : Node} {c : Cursor} {post : Unit → Cursor → Prop},
    post () { c with pending := some marker } → rel (Reader.owe marker) (Reader.owe marker) c post
  nextIs : ∀ {α : Type} {text : String} {wait : Wait} {waits : List Wait} {f g : Bool → Reader α}
    {c : Cursor} {post : α → Cursor → Prop}, trail.On (wait :: waits) c →
    rel (f (c.tokens.head?.any (·.text == text))) (g (c.tokens.head?.any (·.text == text))) c post →
    rel (Reader.nextIs text >>= f) (Reader.nextIs text >>= g) c post
  next : ∀ {α : Type} {wait : Wait} {waits : List Wait} {f g : Option Token → Reader α} {c : Cursor}
    {post : α → Cursor → Prop}, trail.On (wait :: waits) c →
    (c.tokens = [] → rel (f none) (g none) c post) →
    (∀ token rest, c.tokens = token :: rest →
      rel (f (some token)) (g (some token)) { c with tokens := rest, last := token.span } post) →
    rel (Reader.next? >>= f) (Reader.next? >>= g) c post
  rawArgument : ∀ {terminator : Option String} {wait : Wait} {waits : List Wait} {c : Cursor},
    trail.On (wait :: waits) c → rel (Reader.rawArgument terminator) (Reader.rawArgument terminator) c
      fun text after => some text ≠ terminator ∧
        ∀ next, advance (wait :: waits) text = some next → trail.On next after
  bracedText : ∀ {waits : List Wait} {c : Cursor}, trail.On (text :: waits) c →
    rel Reader.bracedText Reader.bracedText c fun _ after => trail.On waits after
  optional : ∀ {nested nested' : Reader.Nested} {terminator : Option String} {below : List Wait}
    {c : Cursor}, trail.Stands terminator below c →
    rel (nested.sequence terminator .unbounded) (nested'.sequence terminator .unbounded) c
      (trail.Complete terminator below) →
    rel (Reader.optional nested terminator) (Reader.optional nested' terminator) c
      (trail.Complete terminator below)

/-- Two nested readers that are followed along a trail, on every call that keeps the protocol. -/
structure FollowedNested (trail : Trail)
    (rel : {α : Type} → Reader α → Reader α → Cursor → (α → Cursor → Prop) → Prop)
    (nested nested' : Reader.Nested) : Prop where
  raw : ∀ {terminator : Option String} {wait : Wait} {waits : List Wait} {c : Cursor},
    trail.On (wait :: waits) c → rel (nested.raw terminator) (nested'.raw terminator) c
      fun text after => some text ≠ terminator ∧
        ∀ next, advance (wait :: waits) text = some next → trail.On next after
  sequence : ∀ {terminator : Option String} {limit : Limit} {below : List Wait} {c : Cursor},
    Closing terminator → trail.Stands terminator below c →
    rel (nested.sequence terminator limit) (nested'.sequence terminator limit) c
      (trail.Left terminator below limit)

/-- A watched reader of sequences does as a plain one does, on every call that keeps the protocol
with less than so many tokens left. -/
structure Agree (room : Nat) (watched plain : Reader.Nested) : Prop where
  raw : ∀ terminator c, c.pending = none →
    watched.raw terminator c = Reader.rawArgument terminator c
  plainRaw : plain.raw = Reader.rawArgument
  sequence : ∀ (trail : Trail) terminator limit below c, trail.room = room → Closing terminator →
    trail.Stands terminator below c →
    Reader.Same (watched.sequence terminator limit) (plain.sequence terminator limit) c
      (trail.Left terminator below limit)

namespace Trail

/-- A node that is no leaf for the terminator has been read. -/
def Yields (trail : Trail) (terminator : Option String) (below : List Wait) (node : Node)
    (c : Cursor) : Prop :=
  node.marks terminator = false ∧ trail.Stands terminator below c

end Trail

theorem Node.marks_collapse {terminator : Option String} {nodes : List Node}
    (unmarked : Unmarked terminator nodes) : (Node.collapse nodes).marks terminator = false := by
  match nodes, unmarked with
  | [], _ => rfl
  | [node], unmarked => exact unmarked node (List.mem_singleton_self node)
  | _ :: _ :: _, _ => rfl

/-! ## Readers that do the same -/

namespace Reader

/-- A raw argument is not the terminator, and moves the trail on by one token. -/
theorem rawArgument_same {trail : Trail} {terminator : Option String} {waits : List Wait} {c : Cursor}
    (here : trail.On waits c) :
    Same (rawArgument terminator) (rawArgument terminator) c fun text after =>
      some text ≠ terminator ∧
        ∀ next, advance waits text = some next → trail.On next after := by
  unfold rawArgument
  refine .step (get_ok c) ?_
  dsimp only
  split
  · exact .refuseNext
  · rename_i open'
    simp only [here.1, Option.isSome_none, Bool.false_or] at open'
    cases left : c.tokens with
    | nil => exact .step (next?_nil left) .refuseNext
    | cons token rest =>
      refine .step (next?_cons left) (.pure ⟨?_, ?_⟩)
      · simpa [left] using open'
      · intro next moved
        exact here.next left moved

theorem followed_same (trail : Trail) : Followed trail Same where
  pure := .pure
  bind := .bind
  mono := .mono
  refuse := .refuse
  refuseLast := .refuseLast
  refuseNext := .refuseNext
  takePending same := .step rfl same
  owe holds := .of_ok rfl holds
  nextIs {_ _ _ _ _ _ c _} _ same := .step (nextIs_ok _ c) same
  next {_ _ _ _ _ c _} _ nothing andThen := by
    cases left : c.tokens with
    | nil => exact .step (next?_nil left) (nothing left)
    | cons token rest => exact .step (next?_cons left) (andThen token rest left)
  rawArgument := rawArgument_same
  bracedText here := .of_ok rfl (here.behindText.congr rfl rfl)
  optional {_ _ _ _ c} here same := by
    unfold Reader.optional
    refine .step (get_ok c) ?_
    split
    · rename_i empty
      simp only [Bool.and_eq_true, Option.isNone_iff_eq_none, List.isEmpty_iff] at empty
      refine .pure ⟨empty.1, [], none, rfl, unmarked_nil, empty.2, ?_⟩
      rcases here with here | ⟨marker, owed, -⟩
      · exact here
      · rw [empty.1] at owed
        cases owed
    · exact same

end Reader

theorem Agree.followed {trail : Trail} {watched plain : Reader.Nested}
    (agree : Agree trail.room watched plain) : FollowedNested trail Reader.Same watched plain where
  raw {terminator _ _ c} here := by
    rw [agree.plainRaw]
    exact ⟨agree.raw terminator c here.1, (Reader.rawArgument_same here).2⟩
  sequence {terminator limit below c} known here :=
    agree.sequence trail terminator limit below c rfl known here

/-! ## Arguments -/

namespace Followed

open Reader (Nested)

variable {trail : Trail}
  {rel : {α : Type} → Reader α → Reader α → Cursor → (α → Cursor → Prop) → Prop}
  (followed : Followed trail rel) {nested nested' : Nested}
  (both : FollowedNested trail rel nested nested') {terminator : Option String}
  {waits below : List Wait} {c : Cursor}

include followed both

theorem optional_complete (known : Closing terminator) (here : trail.Stands terminator below c) :
    rel (Reader.optional nested terminator) (Reader.optional nested' terminator) c
      (trail.Complete terminator below) :=
  followed.optional here (both.sequence known here)

theorem group {closing : String} (known : Closing (some closing))
    (here : trail.On (upTo (some closing) :: below) c) :
    rel (Reader.group nested closing) (Reader.group nested' closing) c
      fun _ after => trail.On below after := by
  unfold Reader.group
  refine followed.bind (followed.optional_complete both known (.inl here)) ?_
  intro nodes after complete
  split
  · exact followed.pure complete.on
  · exact followed.pure complete.on

theorem remainder (known : Closing terminator) (here : trail.Stands terminator below c) :
    rel (Reader.remainder nested terminator) (Reader.remainder nested' terminator) c
      fun result after => Unmarked terminator result.1 ∧
        trail.Complete terminator below result.2.toList after := by
  unfold Reader.remainder
  refine followed.bind (followed.optional_complete both known here) ?_
  rintro _ after ⟨free, front, marker, rfl, unmarked, ended⟩
  cases marker with
  | some marker =>
    obtain ⟨marks, shut⟩ := ended
    obtain ⟨-, named⟩ := Node.marks_iff.mp marks
    subst named
    simp only [Option.toList_some, List.getLast?_append, List.getLast?_singleton,
      Option.some_or, Node.is, beq_self_eq_true, if_true, List.dropLast_concat]
    exact followed.pure ⟨unmarked, free, [], some marker, rfl, unmarked_nil, marks, shut⟩
  | none =>
    simp only [Option.toList_none, List.append_nil]
    have all : trail.Complete terminator below [] after :=
      ⟨free, [], none, rfl, unmarked_nil, ended⟩
    split
    · rename_i last found
      obtain ⟨init, rfl⟩ := List.getLast?_eq_some_iff.mp found
      obtain ⟨unmarked', lastUnmarked⟩ := unmarked_append.mp unmarked
      split
      · rw [List.dropLast_concat]
        exact followed.pure ⟨unmarked', all.prepend lastUnmarked⟩
      · exact followed.pure ⟨unmarked, all⟩
    · exact followed.pure ⟨unmarked, all⟩

omit followed in
theorem arguments (known : Closing terminator) (count : Nat)
    (here : trail.Stands terminator below c) :
    rel (Reader.arguments nested terminator count) (Reader.arguments nested' terminator count) c
      (trail.Left terminator below (.nodes count)) :=
  both.sequence known here

theorem argument (known : Closing terminator) (here : trail.Stands terminator below c) :
    rel (Reader.argument nested terminator) (Reader.argument nested' terminator) c
      (trail.Yields terminator below) := by
  unfold Reader.argument
  refine followed.bind (arguments both known 1 here) ?_
  rintro nodes after ⟨unmarked, stands⟩
  exact followed.pure ⟨Node.marks_collapse unmarked, stands⟩

theorem fence? (here : trail.On (fence :: waits) c) :
    rel (Reader.fence? nested terminator) (Reader.fence? nested' terminator) c
      fun _ after => trail.On waits after := by
  unfold Reader.fence?
  refine followed.bind (both.raw here) ?_
  rintro raw after ⟨-, moved⟩
  dsimp only
  split
  · rename_i opens
    have inside := moved (text :: waits) (by simp [advance, beq_iff_eq.mp opens])
    refine followed.bind (followed.bracedText inside) ?_
    intro _ _ behind
    exact followed.pure behind
  · rename_i other
    rw [beq_iff_eq] at other
    have behind := moved waits (by simp [advance, other])
    have kept : rel (Pure.pure raw) (Pure.pure raw) after fun _ last => trail.On waits last :=
      followed.pure behind
    refine followed.bind kept ?_
    intro _ _ behind
    exact followed.pure behind

end Followed

end FormulaMarkup

import FormulaMarkup.Formula.Command
import FormulaMarkup.Proofs.Parsing.Arguments

/-!
How the readers of commands keep the terminator protocol: one lemma for each of them. What a reader
starts with is told by the waits that its own token has opened.
-/
namespace FormulaMarkup

open Wait

theorem Node.marks_leaf {terminator : Option String} {token : String}
    (other : some token ≠ terminator) :
    (Node.leaf token).marks terminator = false := by
  simp [Node.marks, Node.leaf, other]

theorem Script.marks_attach (terminator : Option String) (kind : ScriptKind)
    (modifier : Option Modifier) (base script : Node) :
    (Script.attach kind modifier base script).marks terminator = false := by
  unfold Script.attach
  split <;> (try split) <;> (try split) <;> rfl

theorem Script.marks_addPrime (terminator : Option String) (node : Node) :
    (Script.addPrime node).marks terminator = false := by
  unfold Script.addPrime
  split <;> (try split) <;> (try split) <;> rfl

namespace Trail

/-- What a token starts has been read: the sequence goes on, or is at its end. -/
def Goes (trail : Trail) (terminator : Option String) (below : List Wait) (progress : Progress)
    (c : Cursor) : Prop :=
  if progress.finished then trail.Complete terminator below progress.stack.reverse c
  else Unmarked terminator progress.stack ∧ trail.Stands terminator below c

/-- What follows a node up to the end of the sequence is all that follows it. -/
theorem goes_finished {trail : Trail} {terminator : Option String} {below : List Wait}
    {c : Cursor} {node : Node} {stack : List Node} {marker : Option Node}
    (unmarked : Unmarked terminator stack) (other : node.marks terminator = false)
    (complete : trail.Complete terminator below marker.toList c) :
    trail.Goes terminator below ⟨marker.toList ++ node :: stack, true⟩ c := by
  have front : Unmarked terminator (stack.reverse ++ [node]) := by
    refine unmarked_append.mpr ⟨?_, unmarked_cons.mpr ⟨other, unmarked_nil⟩⟩
    intro node mem
    exact unmarked node (List.mem_reverse.mp mem)
  have all := complete.prepend front
  cases marker with
  | none => simpa [Trail.Goes] using all
  | some marker => simpa [Trail.Goes] using all

end Trail

namespace Reader

theorem negated?_start {symbols : SymbolTable} {token negated : String}
    (found : negated? symbols token = some negated) :
    ∃ rest, negated.toList = '\\' :: 'n' :: rest := by
  unfold negated? at found
  split at found
  · cases found
    exact ⟨['e'], rfl⟩
  · cases found
    exact ⟨"less".toList, rfl⟩
  · cases found
    exact ⟨"gtr".toList, rfl⟩
  · split at found
    · rename_i name _
      dsimp only at found
      split at found
      · cases found
        exact ⟨name, by simp⟩
      · cases found
    · cases found

theorem ofShape_shape? (symbols : SymbolTable) (token : String) :
    ofShape (shape? symbols token) = ofShape (Shape.of? token) := by
  unfold shape?
  cases Shape.of? token with
  | some shape => rfl
  | none =>
    dsimp only
    split <;> rfl

end Reader

namespace Followed

open Reader (Nested negated?_start ofShape_shape?)

variable {trail : Trail}
  {rel : {α : Type} → Reader α → Reader α → Cursor → (α → Cursor → Prop) → Prop}
  (followed : Followed trail rel) {nested nested' : Nested}
  (both : FollowedNested trail rel nested nested') {terminator : Option String}
  {below : List Wait} {c : Cursor} (known : Closing terminator)

include followed

omit both known in
/-- The next token is one that is known. -/
theorem step {α : Type} {wait : Wait} {waits : List Wait} {f g : Option Token → Reader α}
    {post : α → Cursor → Prop} {token : Token} {rest : List Token} (here : trail.On (wait :: waits) c)
    (left : c.tokens = token :: rest)
    (andThen : rel (f (some token)) (g (some token)) { c with tokens := rest, last := token.span } post) :
    rel (Reader.next? >>= f) (Reader.next? >>= g) c post := by
  refine followed.next here (fun done => ?_) fun token' rest' left' => ?_
  · rw [left] at done
    cases done
  · rw [left] at left'
    obtain ⟨rfl, rfl⟩ := List.cons.inj left'
    exact andThen

include both known

theorem bracketed {labelled : List Node → Node → Node} {bare : Node → Node}
    (shown : ∀ label base, (labelled label base).marks terminator = false)
    (plainly : ∀ base, (bare base).marks terminator = false)
    (here : trail.On (bracket :: upTo terminator :: below) c) :
    rel (Reader.bracketed nested terminator labelled bare) (Reader.bracketed nested' terminator labelled bare) c
      (trail.Yields terminator below) := by
  unfold Reader.bracketed
  refine followed.nextIs here ?_
  split
  · rename_i follows
    obtain ⟨_, _, left, inside⟩ := here.answered follows
    refine followed.step here left ?_
    refine followed.bind (followed.group both (closing_of_mem (by decide)) inside) ?_
    intro label _ behind
    refine followed.bind (followed.argument both known (.inl behind)) ?_
    rintro base _ ⟨-, stands⟩
    exact followed.pure ⟨shown label base, stands⟩
  · rename_i other
    have behind := here.unanswered (eq_false_of_ne_true other)
    refine followed.bind (followed.argument both known (.inl behind)) ?_
    rintro base _ ⟨-, stands⟩
    exact followed.pure ⟨plainly base, stands⟩

theorem labelledArrow (token : String)
    (here : trail.On (bracket :: upTo terminator :: below) c) :
    rel (Reader.labelledArrow nested terminator token) (Reader.labelledArrow nested' terminator token) c
      (trail.Yields terminator below) :=
  followed.bracketed both known (fun _ _ => rfl) (fun _ => rfl) here

theorem squareRoot (here : trail.On (bracket :: upTo terminator :: below) c) :
    rel (Reader.squareRoot nested terminator) (Reader.squareRoot nested' terminator) c
      (trail.Yields terminator below) := by
  apply followed.bracketed both known _ _ here
  · intro index radicand
    split <;> rfl
  · intro radicand
    rfl

theorem root (here : trail.On (upTo (some "\\of") :: upTo terminator :: below) c) :
    rel (Reader.root nested terminator) (Reader.root nested' terminator) c
      (trail.Yields terminator below) := by
  unfold Reader.root
  refine followed.bind (followed.group both (closing_of_mem (by decide)) here) ?_
  intro index _ behind
  refine followed.bind (followed.argument both known (.inl behind)) ?_
  rintro radicand _ ⟨-, stands⟩
  exact followed.pure ⟨rfl, stands⟩

theorem space {token : String} (other : some token ≠ terminator)
    (here : trail.On (upTo terminator :: below) c) :
    rel (Reader.space nested terminator token) (Reader.space nested' terminator token) c
      (trail.Yields terminator below) := by
  unfold Reader.space
  refine followed.bind (followed.argument both known (.inl here)) ?_
  rintro width _ ⟨-, stands⟩
  dsimp only
  split
  · exact followed.refuseLast
  · exact followed.pure ⟨by simp [Node.marks, Node.setAttribute, Node.leaf, other], stands⟩

theorem generalFraction (here : trail.On (fence :: fence :: upTo terminator :: below) c) :
    rel (Reader.generalFraction nested terminator) (Reader.generalFraction nested' terminator) c
      (trail.Yields terminator below) := by
  unfold Reader.generalFraction
  refine followed.bind (followed.fence? both here) ?_
  intro opening _ here
  refine followed.bind (followed.fence? both here) ?_
  intro closing _ here
  refine followed.bind (followed.argument both known (.inl here)) ?_
  rintro thickness _ ⟨-, stands⟩
  refine followed.bind (followed.argument both known stands) ?_
  rintro style _ ⟨-, stands⟩
  refine followed.bind (arguments both known 2 stands) ?_
  rintro parts _ ⟨-, stands⟩
  refine followed.pure ⟨?_, stands⟩
  split
  · rfl
  · split <;> rfl

theorem sideScripts (here : trail.On (upTo terminator :: below) c) :
    rel (Reader.sideScripts nested terminator) (Reader.sideScripts nested' terminator) c
      (trail.Yields terminator below) := by
  unfold Reader.sideScripts
  refine followed.bind (arguments both known 3 (.inl here)) ?_
  rintro parts _ ⟨-, stands⟩
  split
  · exact followed.pure ⟨rfl, stands⟩
  · exact followed.refuseLast

theorem skew {span : Span} (here : trail.On (upTo terminator :: below) c) :
    rel (Reader.skew nested terminator span) (Reader.skew nested' terminator span) c
      (trail.Yields terminator below) := by
  unfold Reader.skew
  refine followed.bind (arguments both known 2 (.inl here)) ?_
  rintro parts _ ⟨-, stands⟩
  split
  · dsimp only
    split
    · exact followed.pure ⟨rfl, stands⟩
    · exact followed.refuse
  · exact followed.refuseLast

omit known in
theorem environment {span : Span} {header : String}
    (here : trail.On (upTo (some (ending header)) :: upTo terminator :: below) c) :
    rel (Reader.environment nested span header) (Reader.environment nested' span header) c
      (trail.Yields terminator below) := by
  unfold Reader.environment
  refine followed.bind (followed.optional_complete both (closing_ending header) (.inl here)) ?_
  intro nodes _ complete
  split
  · split
    · exact followed.pure ⟨rfl, .inl complete.on⟩
    · exact followed.refuse
  · exact followed.refuse

omit known in
theorem leftRight {span : Span}
    (here : trail.On (raw :: upTo (some "\\right") :: upTo terminator :: below) c) :
    rel (Reader.leftRight nested span) (Reader.leftRight nested' span) c (trail.Yields terminator below) := by
  unfold Reader.leftRight
  refine followed.next here (fun _ => followed.refuse) fun delimiter rest left => ?_
  have inside := here.next left rfl
  refine followed.bind (followed.optional_complete both (closing_of_mem (by decide)) (.inl inside)) ?_
  intro children _ complete
  split
  · exact followed.pure ⟨rfl, .inl complete.on⟩
  · exact followed.refuse

/-! ## Commands that change the stack -/

theorem script {kind : ScriptKind} {span : Span} {stack : List Node}
    (unmarked : Unmarked terminator stack) (here : trail.On (upTo terminator :: below) c) :
    rel (Reader.script nested terminator kind span stack) (Reader.script nested' terminator kind span stack) c
      (trail.Goes terminator below) := by
  unfold Reader.script
  have below' : Unmarked terminator stack.tail :=
    fun node mem => unmarked node (List.mem_of_mem_tail mem)
  dsimp only
  split
  · exact followed.refuse
  · split
    · split
      · rename_i operator deeper rest
        split
        · refine followed.bind (followed.argument both known (.inl here)) ?_
          rintro argument _ ⟨-, stands⟩
          rw [rest, unmarked_cons] at below'
          exact followed.pure ⟨unmarked_cons.mpr ⟨Script.marks_attach .., below'.2⟩, stands⟩
        · exact followed.refuse
      · exact followed.refuse
    · refine followed.bind (followed.argument both known (.inl here)) ?_
      rintro argument _ ⟨-, stands⟩
      exact followed.pure ⟨unmarked_cons.mpr ⟨Script.marks_attach .., below'⟩, stands⟩

theorem negation {symbols : SymbolTable} {stack : List Node}
    (unmarked : Unmarked terminator stack) (here : trail.On (upTo terminator :: below) c) :
    rel (Reader.negation symbols nested terminator stack) (Reader.negation symbols nested' terminator stack) c
      (trail.Goes terminator below) := by
  unfold Reader.negation
  refine followed.bind (followed.argument both known (.inl here)) ?_
  rintro target _ ⟨unmarked', stands⟩
  split
  · rename_i negated found
    have start : ∃ rest, negated.toList = '\\' :: 'n' :: rest := by
      split at found
      · exact negated?_start found
      · cases found
    obtain ⟨_, start⟩ := start
    exact followed.pure ⟨unmarked_cons.mpr ⟨Node.marks_leaf (known.ne_of_start start), unmarked⟩, stands⟩
  · have start : "\\not".toList = '\\' :: 'n' :: "ot".toList := rfl
    have other : some "\\not" ≠ terminator := known.ne_of_start start
    exact followed.pure ⟨unmarked_cons.mpr ⟨unmarked', unmarked_cons.mpr ⟨Node.marks_leaf other, unmarked⟩⟩,
      stands⟩

theorem color {token : String} {stack : List Node} (unmarked : Unmarked terminator stack)
    (here : trail.On (raw :: upTo terminator :: below) c) :
    rel (Reader.color nested terminator token stack) (Reader.color nested' terminator token stack) c
      (trail.Goes terminator below) := by
  unfold Reader.color
  refine followed.bind (both.raw here) ?_
  rintro value _ ⟨-, moved⟩
  refine followed.bind (followed.remainder both known (.inl (moved _ rfl))) ?_
  rintro ⟨nodes, marker⟩ _ ⟨-, complete⟩
  exact followed.pure (Trail.goes_finished unmarked rfl complete)

theorem table {token : String} {stack : List Node} (unmarked : Unmarked terminator stack)
    (here : trail.On (upTo terminator :: below) c) :
    rel (Reader.table nested terminator token stack) (Reader.table nested' terminator token stack) c
      (trail.Goes terminator below) := by
  unfold Reader.table
  refine followed.nextIs here ?_
  split
  · rename_i follows
    cases left : c.tokens with
    | nil =>
      rw [left] at follows
      cases follows
    | cons brace rest =>
      rw [left] at follows
      have opens : brace.text = Word.openBrace := by simpa using follows
      have moved : advance (upTo terminator :: below) brace.text =
          some (upTo (some Word.closeBrace) :: upTo terminator :: below) := by
        rw [opens, advance, if_neg known.ne_openBrace]
        rfl
      have inside := here.next left moved
      refine followed.step here left ?_
      refine followed.bind (followed.group both (closing_of_mem (by decide)) inside) ?_
      intro body _ behind
      exact followed.pure ⟨unmarked_cons.mpr ⟨rfl, unmarked⟩, .inl behind⟩
  · refine followed.bind (followed.remainder both known (.inl here)) ?_
    rintro ⟨nodes, marker⟩ _ ⟨-, complete⟩
    exact followed.pure (Trail.goes_finished unmarked rfl complete)

omit known in
theorem infixFences {fraction : InfixFraction}
    (here : trail.On ((if fraction.readsFences then [fence, fence] else []) ++
      upTo terminator :: below) c) :
    rel (Reader.infixFences nested terminator fraction) (Reader.infixFences nested' terminator fraction) c
      fun _ after => trail.On (upTo terminator :: below) after := by
  unfold Reader.infixFences
  split at here
  · rename_i reads
    simp only [reads, if_true]
    refine followed.bind (followed.fence? both here) ?_
    intro opening _ here
    refine followed.bind (followed.fence? both here) ?_
    intro closing _ here
    exact followed.pure here
  · rename_i reads
    simp only [reads]
    exact followed.pure here

theorem infixBar {fraction : InfixFraction}
    (here : trail.On (upTo terminator :: below) c) :
    rel (Reader.infixBar nested terminator fraction) (Reader.infixBar nested' terminator fraction) c
      fun _ after => trail.Stands terminator below after := by
  unfold Reader.infixBar
  split
  · exact followed.pure (.inl here)
  · exact followed.pure (.inl here)
  · refine followed.bind (followed.argument both known (.inl here)) ?_
    rintro thickness _ ⟨-, stands⟩
    exact followed.pure stands

theorem infixFraction {fraction : InfixFraction} {span : Span} {stack : List Node}
    (here : trail.On ((if fraction.readsFences then [fence, fence] else []) ++
      upTo terminator :: below) c) :
    rel (Reader.infixFraction nested terminator fraction span stack)
      (Reader.infixFraction nested' terminator fraction span stack) c (trail.Goes terminator below) := by
  unfold Reader.infixFraction
  refine followed.bind (followed.infixFences both here) ?_
  intro delimiter _ here
  refine followed.bind (followed.infixBar both known here) ?_
  intro attributes _ stands
  refine followed.bind (followed.remainder both known stands) ?_
  rintro ⟨under, marker⟩ _ ⟨-, complete⟩
  dsimp only
  split
  · exact followed.refuse
  · split
    · exact followed.refuse
    · exact followed.pure (Trail.goes_finished unmarked_nil rfl complete)

/-! ## All commands -/

omit both known in
/-- A node that has been read goes on the stack. -/
theorem push {r s : Reader Node} {stack : List Node} (unmarked : Unmarked terminator stack)
    (same : rel r s c (trail.Yields terminator below)) :
    rel (r >>= fun node => Pure.pure ⟨node :: stack, false⟩)
      (s >>= fun node => Pure.pure ⟨node :: stack, false⟩) c (trail.Goes terminator below) := by
  refine followed.bind same ?_
  rintro node _ ⟨other, stands⟩
  exact followed.pure ⟨unmarked_cons.mpr ⟨other, unmarked⟩, stands⟩

theorem command {symbols : SymbolTable} {token : Token} {stack : List Node}
    (other : some token.text ≠ terminator) (unmarked : Unmarked terminator stack)
    (here : trail.On (ofShape (Shape.of? token.text) ++ upTo terminator :: below) c) :
    rel (Reader.command symbols nested terminator token stack) (Reader.command symbols nested' terminator token stack)
      c (trail.Goes terminator below) := by
  rw [← ofShape_shape? symbols] at here
  have leaf := Node.marks_leaf other
  unfold Reader.command
  dsimp only
  cases shape : Reader.shape? symbols token.text with
  | none =>
    rw [shape] at here
    exact followed.pure ⟨unmarked_cons.mpr ⟨leaf, unmarked⟩, .inl here⟩
  | some shape' =>
    rw [shape] at here
    cases shape' with
    | nodes count =>
      refine followed.bind (arguments both known count (.inl here)) ?_
      rintro nodes _ ⟨-, stands⟩
      exact followed.pure ⟨unmarked_cons.mpr ⟨rfl, unmarked⟩, stands⟩
    | reversed =>
      refine followed.bind (arguments both known 2 (.inl here)) ?_
      rintro nodes _ ⟨-, stands⟩
      exact followed.pure ⟨unmarked_cons.mpr ⟨rfl, unmarked⟩, stands⟩
    | negation => exact followed.negation both known unmarked here
    | labelledArrow => exact followed.push unmarked (followed.labelledArrow both known _ here)
    | space => exact followed.push unmarked (followed.space both known other here)
    | color => exact followed.color both known unmarked here
    | style =>
      refine followed.bind (both.raw here) ?_
      rintro value _ ⟨-, moved⟩
      refine followed.bind (followed.argument both known (.inl (moved _ rfl))) ?_
      rintro node _ ⟨other', stands⟩
      exact followed.pure ⟨unmarked_cons.mpr ⟨other', unmarked⟩, stands⟩
    | rawText =>
      refine followed.bind (both.raw here) ?_
      rintro text _ ⟨-, moved⟩
      exact followed.pure ⟨unmarked_cons.mpr ⟨leaf, unmarked⟩, .inl (moved _ rfl)⟩
    | link =>
      refine followed.bind (both.raw here) ?_
      rintro target _ ⟨-, moved⟩
      refine followed.bind (arguments both known 1 (.inl (moved _ rfl))) ?_
      rintro nodes _ ⟨-, stands⟩
      exact followed.pure ⟨unmarked_cons.mpr ⟨rfl, unmarked⟩, stands⟩
    | infixFraction fraction => exact followed.infixFraction both known here
    | squareRoot => exact followed.push unmarked (followed.squareRoot both known here)
    | root => exact followed.push unmarked (followed.root both known here)
    | table => exact followed.table both known unmarked here
    | generalFraction => exact followed.push unmarked (followed.generalFraction both known here)
    | sideScripts => exact followed.push unmarked (followed.sideScripts both known here)
    | skew => exact followed.push unmarked (followed.skew both known here)

theorem token {symbols : SymbolTable} {token : Token} {stack : List Node}
    (other : some token.text ≠ terminator) (unmarked : Unmarked terminator stack)
    (here : trail.On (opened token.text ++ upTo terminator :: below) c) :
    rel (Reader.token symbols nested terminator token stack)
      (Reader.token symbols nested' terminator token stack) c (trail.Goes terminator below) := by
  unfold Reader.token
  dsimp only
  split
  · exact followed.refuse
  split
  · exact followed.refuse
  split
  · rename_i starts
    simp only [opened, starts, if_true] at here
    exact followed.push unmarked (followed.environment both here)
  rename_i starts
  split
  · rename_i left
    simp only [opened, beq_iff_eq.mp left] at here
    exact followed.push unmarked (followed.leftRight both here)
  rename_i left
  split
  · rename_i opens
    simp only [opened, beq_iff_eq.mp opens] at here
    refine followed.bind (followed.group both (closing_of_mem (by decide)) here) ?_
    intro nodes _ behind
    exact followed.pure ⟨unmarked_cons.mpr ⟨rfl, unmarked⟩, .inl behind⟩
  rename_i opens
  split
  · rename_i script
    simp only [opened, beq_iff_eq.mp script] at here
    exact followed.script both known unmarked here
  split
  · rename_i script
    simp only [opened, beq_iff_eq.mp script] at here
    exact followed.script both known unmarked here
  split
  · rename_i prime
    simp only [opened, beq_iff_eq.mp prime] at here
    refine followed.pure ⟨unmarked_cons.mpr ⟨Script.marks_addPrime .., ?_⟩, .inl here⟩
    intro node mem
    exact unmarked node (List.mem_of_mem_tail mem)
  · rw [beq_iff_eq] at left opens
    simp only [opened, starts, left, opens, if_false] at here
    exact followed.command both known other unmarked here

end Followed

/-- A watched reader of a token does as the plain one. -/
theorem Reader.token_same {watched plain : Nested} {trail : Trail} {terminator : Option String}
    {below : List Wait} {c : Cursor} {symbols : SymbolTable} {token : Token} {stack : List Node}
    (agree : Agree trail.room watched plain) (known : Closing terminator)
    (other : some token.text ≠ terminator) (unmarked : Unmarked terminator stack)
    (here : trail.On (opened token.text ++ upTo terminator :: below) c) :
    Same (Reader.token symbols watched terminator token stack)
      (Reader.token symbols plain terminator token stack) c (trail.Goes terminator below) :=
  (followed_same trail).token agree.followed known other unmarked here

end FormulaMarkup

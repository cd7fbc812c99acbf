import FormulaMarkup.Proofs.Parsing.Agreement
import FormulaMarkup.Proofs.Parsing.Brackets

/-!
The terminator protocol, as conditions on cursors. A trail follows the brackets from some token on;
where a sequence stands is told by the waits of the trail: its own wait is on top while it is open,
and gone once its terminator has been taken, be it owed or returned as a leaf.
-/
namespace FormulaMarkup

def Node.marks (terminator : Option String) (node : Node) : Bool :=
  node.isLeaf && some node.token == terminator

theorem Node.marks_iff {terminator : Option String} {node : Node} :
    node.marks terminator = true ↔ node.children = none ∧ some node.token = terminator := by
  simp [Node.marks, Node.isLeaf]

/-- None of a list of nodes is a leaf for a terminator. -/
def Unmarked (terminator : Option String) (nodes : List Node) : Prop :=
  ∀ node ∈ nodes, node.marks terminator = false

theorem unmarked_nil {terminator : Option String} : Unmarked terminator [] := by
  intro node absurd
  cases absurd

theorem unmarked_cons {terminator : Option String} {node : Node} {nodes : List Node} :
    Unmarked terminator (node :: nodes) ↔
      node.marks terminator = false ∧ Unmarked terminator nodes := by
  simp [Unmarked]

theorem unmarked_append {terminator : Option String} {front back : List Node} :
    Unmarked terminator (front ++ back) ↔
      Unmarked terminator front ∧ Unmarked terminator back := by
  simp only [Unmarked, List.mem_append]
  constructor
  · intro all
    exact ⟨fun node mem => all node (.inl mem), fun node mem => all node (.inr mem)⟩
  · rintro ⟨first, second⟩ node (mem | mem)
    · exact first node mem
    · exact second node mem

/-- A stretch of tokens to read, with what is waited for at its start and a bound on its length. -/
structure Trail where
  tokens : List Token
  waits : List Wait
  room : Nat

namespace Trail

open Wait

/-- The same trail with more or less room. -/
def within (trail : Trail) (room : Nat) : Trail := { trail with room }

/-- What is waited for when these tokens are left. -/
def At (trail : Trail) (waits : List Wait) (left : List Token) : Prop :=
  left.length < trail.room ∧ ∃ taken, trail.tokens = taken ++ left ∧
    scan trail.waits (taken.map (·.text)) = some waits

/-- Nothing is owed, and these waits are on top. There may be unanswered brackets on them, and
anything at the end of the source. -/
def On (trail : Trail) (waits : List Wait) (c : Cursor) : Prop :=
  c.pending = none ∧ ∃ idle, trail.At (idle ++ waits) c.tokens ∧
    (idle = [] ∨ (∀ wait ∈ idle, wait = bracket) ∧
      c.tokens.head?.any (·.text == "[") = false ∨ c.tokens = [])

/-- The sequence on these waits has been closed. A `\right` may lack its delimiter at the end. -/
def Shut (trail : Trail) (below : List Wait) (c : Cursor) : Prop :=
  trail.At below c.tokens ∨ trail.At (raw :: below) c.tokens ∧ c.tokens = []

/-- A sequence is open, or its terminator is owed to it. -/
def Stands (trail : Trail) (terminator : Option String) (below : List Wait) (c : Cursor) : Prop :=
  trail.On (upTo terminator :: below) c ∨
    ∃ marker, c.pending = some marker ∧ marker.marks terminator = true ∧ trail.Shut below c

/-- A sequence without a limit is at its end: with a leaf for its terminator, or without one where
there is no token left. -/
def Ended (trail : Trail) (terminator : Option String) (below : List Wait) (c : Cursor) :
    Option Node → Prop
  | some marker => marker.marks terminator = true ∧ trail.Shut below c
  | none => c.tokens = [] ∧ trail.On (upTo terminator :: below) c

/-- A sequence without a limit has been read. -/
def Complete (trail : Trail) (terminator : Option String) (below : List Wait) (nodes : List Node)
    (c : Cursor) : Prop :=
  c.pending = none ∧ ∃ front marker, nodes = front ++ marker.toList ∧ Unmarked terminator front ∧
    trail.Ended terminator below c marker

def Left (trail : Trail) (terminator : Option String) (below : List Wait) :
    Limit → List Node → Cursor → Prop
  | .unbounded, nodes, c => trail.Complete terminator below nodes c
  | .nodes _, nodes, c => Unmarked terminator nodes ∧ trail.Stands terminator below c

variable {trail : Trail} {below waits : List Wait} {c : Cursor} {terminator : Option String}

theorem at_next {token : Token} {rest : List Token} {next : List Wait} {room : Nat}
    (enough : trail.room ≤ room + 1) (here : trail.At waits (token :: rest))
    (moved : advance waits token.text = some next) : (trail.within room).At next rest := by
  obtain ⟨fits, taken, split, scanned⟩ := here
  have fits' : rest.length < room := by
    rw [List.length_cons] at fits
    omega
  refine ⟨fits', taken ++ [token], by simp [within, split], ?_⟩
  rw [List.map_append, scan_append]
  simp [within, scanned, scan, moved]

theorem advance_brackets {idle : List Wait} (brackets : ∀ wait ∈ idle, wait = bracket)
    {token : String} (other : (token == "[") = false) :
    advance (idle ++ waits) token = advance waits token := by
  induction idle with
  | nil => rfl
  | cons wait rest ih =>
    obtain rfl := brackets wait List.mem_cons_self
    simp only [List.cons_append, advance]
    rw [if_neg (by simpa using other)]
    exact ih fun wait mem => brackets wait (List.mem_cons_of_mem _ mem)

theorem on_of_at (free : c.pending = none) (here : trail.At waits c.tokens) : trail.On waits c :=
  ⟨free, [], here, .inl rfl⟩

theorem On.drop {wait : Wait} (here : trail.On (wait :: below) c) (done : c.tokens = []) :
    trail.On below c := by
  obtain ⟨free, idle, here, -⟩ := here
  exact ⟨free, idle ++ [wait], by rwa [List.append_assoc], .inr (.inr done)⟩

/-- One token further, there is less room. -/
theorem On.at_next {token : Token} {rest : List Token} {next : List Wait} {room : Nat}
    (here : trail.On waits c) (left : c.tokens = token :: rest)
    (moved : advance waits token.text = some next) (enough : trail.room ≤ room + 1) :
    (trail.within room).At next rest := by
  obtain ⟨-, idle, here, rfl | ⟨brackets, other⟩ | done⟩ := here
  · rw [left] at here
    exact Trail.at_next enough here moved
  · rw [left] at here other
    refine Trail.at_next enough here ?_
    rw [advance_brackets brackets (by simpa using other), moved]
  · rw [left] at done
    cases done

/-- One token further. -/
theorem On.next {token : Token} {rest : List Token} {next : List Wait}
    (here : trail.On waits c) (left : c.tokens = token :: rest)
    (moved : advance waits token.text = some next) :
    trail.On next { c with tokens := rest, last := token.span } :=
  on_of_at here.1 (here.at_next left moved (Nat.le_succ _))

/-- A bracket that follows opens a label. -/
theorem On.answered (here : trail.On (bracket :: waits) c)
    (follows : c.tokens.head?.any (·.text == "[") = true) :
    ∃ token rest, c.tokens = token :: rest ∧
      trail.On (upTo (some "]") :: waits) { c with tokens := rest, last := token.span } := by
  cases left : c.tokens with
  | nil =>
    rw [left] at follows
    cases follows
  | cons token rest =>
    rw [left] at follows
    refine ⟨token, rest, rfl, here.next left ?_⟩
    have opens : token.text = "[" := by simpa using follows
    simp [advance, opens]

/-- A bracket that is not answered is not waited for. -/
theorem On.unanswered (here : trail.On (bracket :: waits) c)
    (other : c.tokens.head?.any (·.text == "[") = false) : trail.On waits c := by
  obtain ⟨free, idle, here, idleness⟩ := here
  refine ⟨free, idle ++ [bracket], by simpa using here, ?_⟩
  rcases idleness with rfl | ⟨brackets, -⟩ | done
  · exact .inr (.inl ⟨by simp, other⟩)
  · refine .inr (.inl ⟨?_, other⟩)
    simp only [List.mem_append, List.mem_singleton]
    rintro wait (mem | rfl)
    · exact brackets wait mem
    · rfl
  · exact .inr (.inr done)

theorem On.congr {d : Cursor} (here : trail.On waits c) (owed : d.pending = c.pending)
    (left : d.tokens = c.tokens) : trail.On waits d := by
  unfold On
  rw [owed, left]
  exact here

/-- Behind the brace that closes a text, or at the end. -/
theorem On.behindText (here : trail.On (text :: waits) c) :
    trail.On waits { c with
      tokens := c.tokens.drop ((c.tokens.takeWhile (·.text != Word.closeBrace)).length + 1) } := by
  generalize left : c.tokens = tokens
  induction tokens generalizing c with
  | nil => exact (On.drop here left).congr rfl (by simp [left])
  | cons token rest ih =>
    by_cases closing : token.text = Word.closeBrace
    · have popped : advance (text :: waits) token.text = some waits := by
        simp [advance, closing]
      have moved := here.next left popped
      exact moved.congr rfl (by simp [closing])
    · have kept : advance (text :: waits) token.text = some (text :: waits) := by
        simp [advance, closing]
      have moved := here.next left kept
      exact (ih moved rfl).congr rfl (by simp [closing])

theorem Shut.on (shut : trail.Shut below c) (free : c.pending = none) : trail.On below c := by
  rcases shut with here | ⟨here, done⟩
  · exact on_of_at free here
  · exact ⟨free, [raw], here, .inr (.inr done)⟩

/-- A sequence that has been read leaves the waits below it. -/
theorem Complete.on {nodes : List Node} (complete : trail.Complete terminator below nodes c) :
    trail.On below c := by
  obtain ⟨free, -, marker, -, -, ended⟩ := complete
  cases marker with
  | some marker => exact ended.2.on free
  | none => exact On.drop ended.2 ended.1

theorem Complete.prepend {front nodes : List Node} (unmarked : Unmarked terminator front)
    (complete : trail.Complete terminator below nodes c) :
    trail.Complete terminator below (front ++ nodes) c := by
  obtain ⟨free, middle, marker, rfl, unmarked', ended⟩ := complete
  refine ⟨free, front ++ middle, marker, by rw [List.append_assoc], ?_, ended⟩
  exact unmarked_append.mpr ⟨unmarked, unmarked'⟩

theorem Stands.fits (stands : trail.Stands terminator below c) :
    c.tokens.length < trail.room := by
  rcases stands with ⟨-, _, here, -⟩ | ⟨_, _, _, here | ⟨here, -⟩⟩
  · exact here.1
  · exact here.1
  · exact here.1

theorem Stands.owed (stands : trail.Stands terminator below c) :
    c.pending.all (·.marks terminator) = true := by
  rcases stands with ⟨free, -⟩ | ⟨marker, owed, marks, -⟩
  · simp [free]
  · simp [owed, marks]

/-! ## More room -/

section Room

variable {room : Nat} (enough : room ≤ trail.room)

include enough

theorem At.widen {left : List Token} (here : (trail.within room).At waits left) :
    trail.At waits left :=
  ⟨Nat.lt_of_lt_of_le here.1 enough, here.2⟩

theorem On.widen (here : (trail.within room).On waits c) : trail.On waits c := by
  obtain ⟨free, idle, here, idleness⟩ := here
  exact ⟨free, idle, here.widen enough, idleness⟩

theorem Shut.widen (shut : (trail.within room).Shut below c) : trail.Shut below c := by
  rcases shut with here | ⟨here, done⟩
  · exact .inl (here.widen enough)
  · exact .inr ⟨here.widen enough, done⟩

theorem Stands.widen (stands : (trail.within room).Stands terminator below c) :
    trail.Stands terminator below c := by
  rcases stands with here | ⟨marker, owed, marks, shut⟩
  · exact .inl (here.widen enough)
  · exact .inr ⟨marker, owed, marks, shut.widen enough⟩

theorem Complete.widen {nodes : List Node}
    (complete : (trail.within room).Complete terminator below nodes c) :
    trail.Complete terminator below nodes c := by
  obtain ⟨free, front, marker, split, unmarked, ended⟩ := complete
  refine ⟨free, front, marker, split, unmarked, ?_⟩
  cases marker with
  | none => exact ⟨ended.1, ended.2.widen enough⟩
  | some marker => exact ⟨ended.1, ended.2.widen enough⟩

theorem Left.widen {limit : Limit} {nodes : List Node}
    (left : (trail.within room).Left terminator below limit nodes c) :
    trail.Left terminator below limit nodes c := by
  cases limit with
  | nodes count => exact ⟨left.1, left.2.widen enough⟩
  | unbounded => exact Complete.widen enough left

end Room

end Trail

end FormulaMarkup

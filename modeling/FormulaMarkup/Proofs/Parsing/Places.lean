import FormulaMarkup.Proofs.Parsing.Success
import FormulaMarkup.Proofs.Parsing.Termination

/-!
Places. Where the tokens of a source stand has no part in what they are parsed to: a run that succeeds gives
the same on every other list of tokens with the same texts. The places are only read for errors.
-/
namespace FormulaMarkup

/-- Two cursors that differ in places only. -/
structure Cursor.SameTexts (c d : Cursor) : Prop where
  texts : c.tokens.map (·.text) = d.tokens.map (·.text)
  pending : c.pending = d.pending

theorem Cursor.SameTexts.symm {c d : Cursor} (same : c.SameTexts d) : d.SameTexts c :=
  ⟨same.texts.symm, same.pending.symm⟩

namespace Reader

/-- What the first reader gives, the second one gives from every cursor that differs in places only. -/
def Repeats {α : Type} (r s : Reader α) : Prop :=
  ∀ (c d : Cursor) (a : α) (after : Cursor), c.SameTexts d → r c = .ok (a, after) →
    ∃ last, s d = .ok (a, last) ∧ after.SameTexts last

namespace Repeats

variable {α β : Type}

theorem pure (a : α) : Repeats (Pure.pure a) (Pure.pure a) := by
  rintro c d _ _ same ⟨⟩
  exact ⟨d, rfl, same⟩

theorem bind {r s : Reader α} {f g : α → Reader β} (first : Repeats r s)
    (andThen : ∀ a, Repeats (f a) (g a)) : Repeats (r >>= f) (s >>= g) := by
  intro c d b after same given
  obtain ⟨a, mid, read, given⟩ := bind_ok_iff.mp given
  obtain ⟨mid', read', same'⟩ := first c d a mid same read
  obtain ⟨last, given', behind⟩ := andThen a mid mid' b after same' given
  exact ⟨last, by rw [bind_ok read', given'], behind⟩

theorem refuse {span span' : Span} {cause : Cause} :
    Repeats (Reader.refuse span cause : Reader α) (Reader.refuse span' cause) :=
  fun _ _ _ _ _ given => absurd given refuse_ne_ok

theorem next {f g : Option Token → Reader α} (nothing : Repeats (f none) (g none))
    (andThen : ∀ token token' : Token, token.text = token'.text →
      Repeats (f (some token)) (g (some token'))) :
    Repeats (next? >>= f) (next? >>= g) := by
  intro c d a after same given
  have texts := same.texts
  cases left : c.tokens with
  | nil =>
    rw [left, List.map_nil, eq_comm, List.map_eq_nil_iff] at texts
    rw [bind_ok (next?_nil left)] at given
    rw [bind_ok (next?_nil texts)]
    exact nothing c d a after same given
  | cons token rest =>
    rw [left, List.map_cons, eq_comm, List.map_eq_cons_iff] at texts
    obtain ⟨token', rest', left', text, texts⟩ := texts
    rw [bind_ok (next?_cons left)] at given
    rw [bind_ok (next?_cons left')]
    have behind : (skip c token rest).SameTexts (skip d token' rest') := ⟨texts.symm, same.pending⟩
    exact andThen token token' text.symm _ _ a after behind given

theorem head?_any {c d : Cursor} (same : c.SameTexts d) (p : String → Bool) :
    c.tokens.head?.any (fun token => p token.text) = d.tokens.head?.any fun token => p token.text := by
  have equal := congrArg (fun texts => texts.head?.any p) same.texts
  simpa only [List.head?_map, Option.any_map] using equal

theorem isEmpty {c d : Cursor} (same : c.SameTexts d) : c.tokens.isEmpty = d.tokens.isEmpty := by
  have equal := congrArg List.isEmpty same.texts
  simpa using equal

theorem nextIs (text : String) : Repeats (Reader.nextIs text) (Reader.nextIs text) := by
  rintro c d _ _ same ⟨⟩
  refine ⟨d, ?_, same⟩
  rw [nextIs_ok, head?_any same (· == text)]

theorem bracedText : Repeats Reader.bracedText Reader.bracedText := by
  rintro c d _ _ same ⟨⟩
  have inner (c : Cursor) : (c.tokens.takeWhile (·.text != Word.closeBrace)).map (·.text) =
      (c.tokens.map (·.text)).takeWhile (· != Word.closeBrace) := by
    rw [List.takeWhile_map]
    rfl
  have equal : (d.tokens.takeWhile (·.text != Word.closeBrace)).map (·.text) =
      (c.tokens.takeWhile (·.text != Word.closeBrace)).map (·.text) := by
    rw [inner, inner, same.texts]
  have length := congrArg List.length equal
  rw [List.length_map, List.length_map] at length
  have read : ∃ span, Reader.bracedText d =
      .ok (_, { d with tokens := d.tokens.drop (_ + 1), last := span }) := ⟨_, rfl⟩
  rw [equal, length] at read
  obtain ⟨span, read⟩ := read
  refine ⟨_, read, ?_, same.pending⟩
  rw [List.map_drop, List.map_drop, same.texts]

theorem optional {nested nested' : Nested} {terminator : Option String}
    (sequence : Repeats (nested.sequence terminator .unbounded) (nested'.sequence terminator .unbounded)) :
    Repeats (Reader.optional nested terminator) (Reader.optional nested' terminator) := by
  intro c d nodes after same given
  unfold Reader.optional
  rw [bind_ok (get_ok d), ← same.pending, ← isEmpty same]
  rcases optional_ok given with ⟨free, done, rfl, rfl⟩ | ⟨more, read⟩
  · rw [free, done]
    exact ⟨d, rfl, same⟩
  · rw [more]
    exact sequence c d nodes after same read

theorem rawArgument (terminator : Option String) :
    Repeats (Reader.rawArgument terminator) (Reader.rawArgument terminator) := by
  intro c d text after same given
  obtain ⟨free, token, rest, left, rfl, rfl, other⟩ := rawArgument_ok given
  have texts := same.texts
  rw [left, List.map_cons, eq_comm, List.map_eq_cons_iff] at texts
  obtain ⟨token', rest', left', text, texts⟩ := texts
  rw [← text] at other ⊢
  exact ⟨_, rawArgument_cons (same.pending ▸ free) left' other, texts.symm, same.pending⟩

theorem coupling : Coupling (fun _ _ => True) Repeats where
  pure := pure
  bind := bind
  refuse _ _ := refuse
  refuseLast _ := fun _ _ _ _ _ given => absurd given refuseLast_ne_ok
  nextIs := nextIs
  next := next
  bracedText := bracedText
  optional := optional

variable {terminator : Option String} {limit : Limit} {consumed : Bool} {stack : List Node}

theorem close : Repeats (Reader.close terminator limit consumed stack)
    (Reader.close terminator limit consumed stack) := by
  have owe (marker : Node) : Repeats (Reader.owe marker) (Reader.owe marker) := by
    rintro c d _ _ same ⟨⟩
    exact ⟨_, rfl, same.texts, rfl⟩
  have refuseLast {cause : Cause} : Repeats
      (lastSpan >>= fun span => (Reader.refuse span cause : Reader (List Node)))
      (lastSpan >>= fun span => Reader.refuse span cause) :=
    fun _ _ _ _ _ given => absurd given refuseLast_ne_ok
  unfold Reader.close
  split
  · exact fun _ _ _ _ _ given => absurd given refuseNext_ne_ok
  · split
    · exact pure _
    · dsimp only
      split
      · split
        · exact (owe _).bind fun _ => pure _
        · exact refuseLast
      · split
        · exact refuseLast
        · exact pure _

theorem marker (text : String) : Repeats (Reader.marker text) (Reader.marker text) := by
  unfold Reader.marker
  split
  · refine next (pure _) fun token token' same => ?_
    rw [Option.map_some, Option.map_some, same]
    exact pure _
  · exact pure _

/-- A turn repeats another one if the steps and the turns behind them do. -/
theorem turn {step step' : Token → List Node → Reader Progress}
    {again again' : List Node → Reader (List Node)}
    (steps : ∀ token token' : Token, token.text = token'.text → ∀ stack,
      Repeats (step token stack) (step' token' stack))
    (goesOn : ∀ stack, Repeats (again stack) (again' stack)) :
    Repeats (Reader.turn terminator limit step again consumed stack)
      (Reader.turn terminator limit step' again' consumed stack) := by
  have takePending : Repeats Reader.takePending Reader.takePending := by
    rintro c d _ _ same ⟨⟩
    refine ⟨{ d with pending := none }, ?_, same.texts, rfl⟩
    rw [same.pending]
    rfl
  unfold Reader.turn
  refine takePending.bind fun owed => ?_
  split
  · split
    · exact close
    · exact fun _ _ _ _ _ given => absurd given refuseLast_ne_ok
  · refine next close fun token token' same => ?_
    dsimp only
    rw [← same]
    split
    · split
      · exact (marker _).bind fun _ => close
      · exact refuse
    · refine (steps token token' same stack).bind fun progress => ?_
      split
      · exact close
      · exact goesOn progress.stack

/-- A sequence is read to the same nodes wherever its tokens stand. -/
theorem sequence (symbols : SymbolTable) (budget : Nat) :
    Repeats (Reader.sequence symbols terminator limit budget consumed stack)
      (Reader.sequence symbols terminator limit budget consumed stack) := by
  induction budget generalizing terminator limit consumed stack with
  | zero =>
    intro c d nodes after _ given
    cases given
  | succ budget ih =>
    have nested : CoupledNested Repeats (nestedAt symbols budget) (nestedAt symbols budget) :=
      ⟨rawArgument, fun terminator limit => ih⟩
    have steps (token token' : Token) (same : token.text = token'.text) (stack : List Node) :
        Repeats (Reader.token symbols (nestedAt symbols budget) terminator token stack)
          (Reader.token symbols (nestedAt symbols budget) terminator token' stack) := by
      rcases coupling.token nested terminator symbols same trivial stack with
        ⟨_, -, refused, -⟩ | repeats
      · rw [refused]
        exact fun _ _ _ _ _ given => absurd given refuse_ne_ok
      · exact repeats
    exact turn steps fun stack => ih

theorem unbudgeted (symbols : SymbolTable) :
    Repeats (Reader.unbudgeted symbols terminator limit consumed stack)
      (Reader.unbudgeted symbols terminator limit consumed stack) := by
  intro c d nodes after same given
  have length := congrArg List.length same.texts
  rw [List.length_map, List.length_map] at length
  have plain (e : Cursor) (enough : e.tokens.length < c.tokens.length + 1) :=
    (sequence_same symbols (c.tokens.length + 1) terminator limit consumed stack e enough).1
  rw [← plain c (Nat.lt_succ_self _)] at given
  rw [← plain d (by omega)]
  exact sequence symbols _ c d nodes after same given

end Repeats

end Reader

end FormulaMarkup

import FormulaMarkup.Proofs.Render.Boxes

/-!
Boxes and their dollar signs. A text is cut at the dollar signs that no backslash stands directly
before, and its pieces are text and formula in turn. Main statement: the parts of a box are what its
pieces say, without those that say nothing, and the text can be put together again from all of them.
-/
namespace FormulaMarkup.Box

/-! ## Pieces -/

/-- The characters of a text, each with the one directly before it, if there is one. -/
def withBefore (before : Option Char) (text : List Char) : List (Option Char × Char) :=
  (before :: text.map some).zip text

/-- Whether a text is cut at a character, given with the one directly before it. -/
def cuts (entry : Option Char × Char) : Bool := entry.2 = '$' ∧ entry.1 ≠ some '\\'

/-- The pieces of a text that stands behind a character, or at the start. -/
def piecesFrom (before : Option Char) (text : List Char) : List (List Char) :=
  ((withBefore before text).splitOnP cuts).map (List.map Prod.snd)

def pieces (text : String) : List (List Char) := piecesFrom none text.toList

/-! ## What pieces say -/

/-- Takes the backslash away from before each dollar sign. -/
def unescaped : List Char → List Char
  | [] => []
  | '\\' :: '$' :: rest => '$' :: unescaped rest
  | c :: rest => c :: unescaped rest

/-- Puts a backslash before each dollar sign. -/
def escaped (run : List Char) : List Char := run.flatMap fun c => if c = '$' then ['\\', '$'] else [c]

/-- What a piece with a number is: text for an even number, a formula for an odd one. -/
def modeOf (number : Nat) : Mode := if number % 2 = 0 then .text else .math

def said : Mode → List Char → List Char
  | .text, piece => unescaped piece
  | .math, piece => piece

/-- The piece that says something. -/
def saidAs (run : Mode × List Char) : List Char := if run.1 = .text then escaped run.2 else run.2

/-- What the pieces of a list say, given the number of the first. -/
def runsFrom (number : Nat) (list : List (List Char)) : List (Mode × List Char) :=
  list.mapIdx fun i piece => (modeOf (number + i), said (modeOf (number + i)) piece)

theorem other_modeOf (number : Nat) : (modeOf number).other = modeOf (number + 1) := by
  unfold modeOf
  split
  · rw [if_neg (by omega)]
    rfl
  · rw [if_pos (by omega)]
    rfl

theorem runsFrom_cons (number : Nat) (piece : List Char) (more : List (List Char)) :
    runsFrom number (piece :: more) =
      (modeOf number, said (modeOf number) piece) :: runsFrom (number + 1) more := by
  rw [runsFrom, List.mapIdx_cons]
  simp only [runsFrom, Nat.add_zero, Nat.add_assoc, Nat.add_comm 1]

/-! ## Cutting -/

theorem cuts_iff {before : Option Char} {c : Char} :
    cuts (before, c) = true ↔ c = '$' ∧ before ≠ some '\\' := decide_eq_true_iff

theorem cuts_eq_false {before : Option Char} {c : Char} :
    cuts (before, c) = false ↔ (c = '$' → before = some '\\') := by
  simp [cuts]

/-- How a text behind a character comes apart: its first piece, and the further ones. -/
inductive Apart : Option Char → List Char → List Char → List (List Char) → Prop where
  | nil (before : Option Char) : Apart before [] [] []
  | cut {before : Option Char} {rest first : List Char} {more : List (List Char)}
      (free : before ≠ some '\\') (behind : Apart (some '$') rest first more) :
      Apart before ('$' :: rest) [] (first :: more)
  | goesOn {before : Option Char} {c : Char} {rest first : List Char} {more : List (List Char)}
      (whole : c = '$' → before = some '\\') (behind : Apart (some c) rest first more) :
      Apart before (c :: rest) (c :: first) more

theorem apart_pieces (before : Option Char) (text : List Char) :
    ∃ first more, piecesFrom before text = first :: more ∧ Apart before text first more := by
  induction text generalizing before with
  | nil => exact ⟨[], [], rfl, .nil before⟩
  | cons c rest ih =>
    obtain ⟨first, more, split, behind⟩ := ih (some c)
    have next : withBefore before (c :: rest) = (before, c) :: withBefore (some c) rest := rfl
    rw [piecesFrom, next, List.splitOnP_cons_eq_if_modifyHead]
    cases whole : cuts (before, c) with
    | true =>
      obtain ⟨rfl, free⟩ := cuts_iff.mp whole
      exact ⟨[], first :: more, congrArg ([] :: ·) split, .cut free behind⟩
    | false =>
      obtain ⟨entries, others, parted⟩ :=
        List.exists_cons_of_ne_nil (List.splitOnP_ne_nil cuts (withBefore (some c) rest))
      rw [piecesFrom, parted, List.map_cons] at split
      obtain ⟨rfl, rfl⟩ := List.cons.inj split
      exact ⟨_, _, by rw [parted]; rfl, .goesOn (cuts_eq_false.mp whole) behind⟩

namespace Apart

variable {before : Option Char} {text first : List Char} {more : List (List Char)}

/-- A piece that starts with a dollar sign stands at one. -/
theorem head?_eq (apart : Apart before text first more) (dollar : first.head? = some '$') :
    text.head? = some '$' := by
  cases apart with
  | nil => cases dollar
  | cut => cases dollar
  | goesOn => exact dollar

/-- The pieces between dollar signs are the text. -/
theorem intercalate_eq (apart : Apart before text first more) :
    ['$'].intercalate (first :: more) = text := by
  induction apart with
  | nil => rfl
  | cut _ _ ih => rw [List.intercalate_cons_cons, ih]; rfl
  | @goesOn _ c _ first more _ _ ih =>
    rw [← ih]
    cases more with
    | nil => rw [List.intercalate_singleton, List.intercalate_singleton]
    | cons next more => rw [List.intercalate_cons_cons, List.intercalate_cons_cons]; rfl

end Apart

/-! ## Escaping again -/

theorem unescaped_cons {c : Char} {rest : List Char} (single : c = '\\' → rest.head? ≠ some '$') :
    unescaped (c :: rest) = c :: unescaped rest := by
  rw [unescaped]
  rintro more rfl rfl
  exact single rfl rfl

theorem said_nil (mode : Mode) : said mode [] = [] := by
  cases mode with
  | text => rfl
  | math => rfl

theorem said_cons (mode : Mode) {c : Char} {rest : List Char}
    (single : c = '\\' → rest.head? ≠ some '$') : said mode (c :: rest) = c :: said mode rest := by
  cases mode with
  | text => exact unescaped_cons single
  | math => rfl

theorem escaped_cons {c : Char} (plain : c ≠ '$') (run : List Char) :
    escaped (c :: run) = c :: escaped run := by
  rw [escaped, List.flatMap_cons, if_neg plain]
  rfl

namespace Apart

variable {before : Option Char} {text first : List Char} {more : List (List Char)}

/- A dollar sign behind a backslash belongs to the piece of the backslash. -/
theorem escaped_unescaped (apart : Apart before text first more)
    (single : before = some '\\' → text.head? ≠ some '$') : escaped (unescaped first) = first := by
  fun_induction unescaped first generalizing before text with
  | case1 => rfl
  | case2 rest ih =>
    cases apart with
    | goesOn _ behind =>
      cases behind with
      | goesOn _ behind =>
        have rest := ih behind nofun
        rw [escaped] at rest ⊢
        rw [List.flatMap_cons, rest]
        rfl
  | case3 c rest unpaired ih =>
    cases apart with
    | goesOn whole behind =>
      have plain : c ≠ '$' := by
        rintro rfl
        exact single (whole rfl) rfl
      rw [escaped_cons plain, ih behind]
      intro backslash dollar
      obtain rfl := Option.some.inj backslash
      cases behind with
      | nil => cases dollar
      | cut free => exact free rfl
      | goesOn =>
        obtain rfl := Option.some.inj dollar
        exact unpaired _ rfl rfl

theorem escaped_unescaped_of_mem (apart : Apart before text first more) :
    ∀ piece ∈ more, escaped (unescaped piece) = piece := by
  induction apart with
  | nil => nofun
  | cut _ behind ih => exact List.forall_mem_cons.mpr ⟨behind.escaped_unescaped nofun, ih⟩
  | goesOn _ _ ih => exact ih

end Apart

theorem map_saidAs (number : Nat) {list : List (List Char)}
    (kept : ∀ piece ∈ list, escaped (unescaped piece) = piece) :
    (runsFrom number list).map saidAs = list := by
  induction list generalizing number with
  | nil => rfl
  | cons piece more ih =>
    obtain ⟨first, rest⟩ := List.forall_mem_cons.mp kept
    rw [runsFrom_cons, List.map_cons, ih (number + 1) rest]
    cases modeOf number with
    | text => exact congrArg (· :: more) first
    | math => rfl

/-! ## Parts -/

/-- The parts for runs, without the empty ones. -/
def partsOf (runs : List (Mode × List Char)) : List (Mode × String) :=
  (runs.filter fun run => run.2 ≠ []).map fun run => (run.1, String.ofList run.2)

theorem partsOf_cons (mode : Mode) (run : List Char) (runs : List (Mode × List Char)) :
    partsOf ((mode, run) :: runs) = part mode run.reverse ++ partsOf runs := by
  cases run with
  | nil => rfl
  | cons c cs =>
    have full : (cs.reverse ++ [c]).isEmpty = false := by simp
    rw [partsOf, List.filter_cons_of_pos (by simp), part, List.reverse_cons, full, if_neg (by simp)]
    simp [partsOf]

theorem behind_dollar (rest : List Char) : some '$' = some '\\' → rest.head? ≠ some '$' :=
  fun same => absurd same (by decide)

/- The characters of the part that is being read are what the piece says so far. -/
theorem partsFrom_eq {before : Option Char} {text first : List Char} {more : List (List Char)}
    (apart : Apart before text first more) (single : before = some '\\' → text.head? ≠ some '$')
    (number : Nat) (reversed : List Char) :
    partsFrom (modeOf number) reversed text =
      partsOf ((modeOf number, reversed.reverse ++ said (modeOf number) first) ::
        runsFrom (number + 1) more) := by
  generalize current : modeOf number = mode
  fun_induction partsFrom mode reversed text generalizing before first more number with
  | case1 mode reversed =>
    cases apart with
    | nil =>
      rw [partsOf_cons, said_nil, List.append_nil, List.reverse_reverse]
      exact (List.append_nil _).symm
  | case2 mode reversed rest ih =>
    cases apart with
    | goesOn _ behind =>
      cases behind with
      | cut free => exact absurd rfl free
      | goesOn _ behind =>
        rw [ih behind (behind_dollar _) number current]
        cases mode with
        | text => simp [said, unescaped]
        | math => simp [said]
  | case3 mode reversed rest ih =>
    cases apart with
    | goesOn whole _ => exact absurd rfl (single (whole rfl))
    | cut free behind =>
      have other : modeOf (number + 1) = mode.other := by rw [← current, other_modeOf]
      rw [ih behind (behind_dollar _) (number + 1) other, runsFrom_cons, other, partsOf_cons mode, said_nil,
        List.append_nil, List.reverse_reverse, List.reverse_nil, List.nil_append]
  | case4 mode reversed c rest unpaired other ih =>
    cases apart with
    | cut => exact absurd rfl other
    | @goesOn _ _ _ first _ whole behind =>
      have next : c = '\\' → rest.head? ≠ some '$' := by
        intro backslash dollar
        obtain ⟨more, rfl⟩ := List.head?_eq_some_iff.mp dollar
        exact unpaired more backslash rfl
      have goesOn : said mode (c :: first) = c :: said mode first :=
        said_cons mode fun backslash dollar => next backslash (behind.head?_eq dollar)
      rw [ih behind (fun same => next (Option.some.inj same)) number current, goesOn]
      simp

/-- The parts of a box are what the pieces of its text say, text and formula in turn, without those
that say nothing. None of them is empty, and all pieces, escaped again where they are text, have the
text between them at dollar signs. -/
theorem parts_pieces (text : String) :
    let runs := (pieces text).mapIdx fun i piece =>
      if i % 2 = 0 then (Mode.text, unescaped piece) else (Mode.math, piece)
    parts text = (runs.filter fun run => run.2 ≠ []).map (fun run => (run.1, String.ofList run.2)) ∧
      (∀ part ∈ parts text, part.2 ≠ "") ∧
      ['$'].intercalate (runs.map fun run => if run.1 = .text then escaped run.2 else run.2) =
        text.toList := by
  intro runs
  have named : runs = runsFrom 0 (pieces text) := by
    apply congrArg (List.mapIdx · (pieces text))
    funext i piece
    rw [Nat.zero_add, modeOf]
    split
    · rfl
    · rfl
  obtain ⟨first, more, split, apart⟩ := apart_pieces none text.toList
  have parted : parts text = partsOf runs := by
    rw [named, pieces, split, runsFrom_cons]
    exact partsFrom_eq apart nofun 0 []
  refine ⟨parted, ?_, ?_⟩
  · intro part mem
    rw [parted] at mem
    obtain ⟨run, full, rfl⟩ := List.mem_map.mp mem
    have some : run.2 ≠ [] := of_decide_eq_true (List.mem_filter.mp full).2
    exact fun empty => some (String.ofList_eq_empty_iff.mp empty)
  · have again : runs.map saidAs = first :: more := by
      rw [named, pieces, split]
      exact map_saidAs 0
        (List.forall_mem_cons.mpr ⟨apart.escaped_unescaped nofun, apart.escaped_unescaped_of_mem⟩)
    exact (congrArg ['$'].intercalate again).trans apart.intercalate_eq

theorem parts_pieces_price :
    pieces "a \\$5 $x\\$$$y" = ["a \\$5 ".toList, "x\\$".toList, [], ['y']] ∧
      parts "a \\$5 $x\\$$$y" = [(.text, "a $5 "), (.math, "x\\$"), (.math, "y")] ∧
      (Mode.math, "y") ∈ parts "a \\$5 $x\\$$$y" ∧ "y" ≠ "" ∧
      ['$'].intercalate [escaped "a $5 ".toList, "x\\$".toList, [], ['y']] =
        "a \\$5 $x\\$$$y".toList := by
  obtain ⟨parted, full, joined⟩ := parts_pieces "a \\$5 $x\\$$$y"
  have split : pieces "a \\$5 $x\\$$$y" = ["a \\$5 ".toList, "x\\$".toList, [], ['y']] := by
    decide +kernel
  rw [split] at parted joined
  have listed : (Mode.math, "y") ∈ parts "a \\$5 $x\\$$$y" := by
    rw [parted]
    decide +kernel
  refine ⟨split, ?_, listed, full _ listed, ?_⟩
  · rw [parted]
    decide +kernel
  · rw [← joined]
    decide +kernel

end FormulaMarkup.Box

import FormulaMarkup.Converter
import FormulaMarkup.Proofs.Markup.Carried
import FormulaMarkup.Proofs.Render.TablePass
import Mathlib.Data.List.TakeDrop

/-!
The rules of a table. Main statements: which entries a body gives for the lines above its rows, which
entries an alignment gives for the lines between its columns, and when they stand where the lines do.
-/
namespace FormulaMarkup

namespace Table

/-! ## Entries -/

/-- An entry for a place where a line or rule can stand. -/
def IsEntry (word : String) : Prop := word = "solid" ∨ word = "none"

/-- What entries are written as tells the entries. -/
theorem splitOn_entries {words : List String} (entries : ∀ word ∈ words, IsEntry word) :
    ((" ".intercalate words).toList.splitOn ' ').filter (!·.isEmpty) = words.map String.toList := by
  rw [String.toList_intercalate]
  cases words with
  | nil => rfl
  | cons first rest =>
    have apart : ∀ word ∈ (first :: rest).map String.toList, ' ' ∉ word ∧ word.isEmpty = false := by
      intro word listed
      obtain ⟨entry, mem, rfl⟩ := List.mem_map.mp listed
      rcases entries entry mem with rfl | rfl
      · decide
      · decide
    have split := List.splitOn_intercalate ' ' (fun word mem => (apart word mem).1) (List.cons_ne_nil _ _)
    rw [show " ".toList = [' '] from rfl, split, List.filter_eq_self]
    intro word mem
    rw [(apart word mem).2]
    rfl

theorem intercalate_inj {words others : List String} (entries : ∀ word ∈ words, IsEntry word)
    (entries' : ∀ word ∈ others, IsEntry word) :
    " ".intercalate words = " ".intercalate others ↔ words = others := by
  constructor
  · intro same
    apply List.map_injective_iff.mpr fun _ _ => String.toList_injective
    rw [← splitOn_entries entries, same, splitOn_entries entries']
  · intro same
    rw [same]

/-! ## Rules between columns -/

/-- The bars of an alignment in front of its first letter, between its letters, and behind the last. -/
def gaps (alignment : List Char) : List (List Char) := alignment.splitOnP (· ≠ '|')

theorem gaps_bar (rest : List Char) : gaps ('|' :: rest) = (gaps rest).modifyHead ('|' :: ·) := by
  unfold gaps
  rw [List.splitOnP_cons_eq_if_modifyHead]
  rfl

theorem gaps_letter {letter : Char} (other : letter ≠ '|') (rest : List Char) :
    gaps (letter :: rest) = [] :: gaps rest := by
  unfold gaps
  rw [List.splitOnP_cons_eq_if_modifyHead, if_pos (decide_eq_true other)]

/-- The entry for a gap between two columns. -/
def ruleIn (gap : List Char) : String := if gap.isEmpty then "none" else "solid"

/-- The entries that the gaps of an alignment give, with some entries left over from before: one for each
bar, and one for each letter for which none is left over. A letter uses up one of those. Nothing is due for
the first letter, so an alignment starts with one left over. -/
def rulesFrom : Nat → List (List Char) → List String
  | _, [] => []
  | _, [last] => last.map fun _ => "solid"
  | left, gap :: next :: rest =>
    (gap.map fun _ => "solid") ++ (if left + gap.length = 0 then ["none"] else []) ++
      rulesFrom (left + gap.length - 1) (next :: rest)

theorem rulesFrom_bar (left : Nat) {all : List (List Char)} (some : all ≠ []) :
    rulesFrom left (all.modifyHead ('|' :: ·)) = "solid" :: rulesFrom (left + 1) all := by
  obtain ⟨gap, rest, rfl⟩ := List.exists_cons_of_ne_nil some
  cases rest with
  | nil => rfl
  | cons next rest =>
    rw [List.modifyHead_cons, rulesFrom, rulesFrom, List.length_cons, List.map_cons,
      show left + (gap.length + 1) = left + 1 + gap.length by omega]
    rfl

theorem rulesFrom_letter (left : Nat) {all : List (List Char)} (some : all ≠ []) :
    rulesFrom left ([] :: all) = (if left = 0 then ["none"] else []) ++ rulesFrom (left - 1) all := by
  obtain ⟨gap, rest, rfl⟩ := List.exists_cons_of_ne_nil some
  rw [rulesFrom]
  rfl

/-- Each letter uses up an entry, and gives one if none is left. -/
theorem step_letter {letter : Char} (other : letter ≠ '|') (letters : List Char) (rules : List String)
    {left : Nat} (level : letters.length + left = rules.length + 1) :
    splitAlignment.step (letters, rules) letter =
      (letters ++ [letter], rules ++ if left = 0 then ["none"] else []) := by
  unfold splitAlignment.step
  dsimp only
  rw [if_neg other]
  dsimp only
  rw [List.length_append, List.length_singleton]
  cases left with
  | zero => rw [if_pos (by omega), if_pos rfl]
  | succ left => rw [if_neg (by omega), if_neg (Nat.succ_ne_zero left), List.append_nil]

theorem step_bar (letters : List Char) (rules : List String)
    (most : letters.length ≤ rules.length + 1) :
    splitAlignment.step (letters, rules) '|' = (letters, rules ++ ["solid"]) := by
  unfold splitAlignment.step
  dsimp only
  rw [if_pos rfl]
  dsimp only
  rw [List.length_append, List.length_singleton, if_neg (by omega)]

theorem foldl_step (chars letters : List Char) (rules : List String) {left : Nat}
    (level : letters.length + left = rules.length + 1) :
    chars.foldl splitAlignment.step (letters, rules) =
      (letters ++ chars.filter (· ≠ '|'), rules ++ rulesFrom left (gaps chars)) := by
  induction chars generalizing letters rules left with
  | nil => simp [gaps, rulesFrom]
  | cons first rest ih =>
    have some : gaps rest ≠ [] := List.splitOnP_ne_nil _ rest
    rw [List.foldl_cons]
    by_cases bar : first = '|'
    · have after : letters.length + (left + 1) = (rules ++ ["solid"]).length + 1 := by
        rw [List.length_append, List.length_singleton]
        omega
      rw [bar, step_bar letters rules (by omega), ih _ _ after, gaps_bar, rulesFrom_bar left some]
      simp
    · have after : (letters ++ [first]).length + (left - 1) =
          (rules ++ if left = 0 then ["none"] else []).length + 1 := by
        rw [List.length_append, List.length_append, List.length_singleton]
        split
        · rw [List.length_singleton]
          omega
        · rw [List.length_nil]
          omega
      rw [step_letter bar letters rules level, ih _ _ after, gaps_letter bar, rulesFrom_letter left some]
      simp [bar]

theorem splitAlignment_eq {alignment : String} (ruled : '|' ∈ alignment.toList) :
    splitAlignment alignment =
      (alignment.toList.filter (· ≠ '|'), some (rulesFrom 1 (gaps alignment.toList))) := by
  unfold splitAlignment
  have level : ([] : List Char).length + 1 = ([] : List String).length + 1 := rfl
  rw [if_pos (List.contains_iff_mem.mpr ruled), foldl_step _ [] [] level]
  rfl

theorem length_gaps (chars : List Char) :
    (gaps chars).length = (chars.filter (· ≠ '|')).length + 1 := by
  induction chars with
  | nil => rfl
  | cons first rest ih =>
    by_cases bar : first = '|'
    · simp [bar, gaps_bar, ih]
    · simp [gaps_letter bar, bar, ih]

/-- With one bar at most in front of each letter, and none behind the last, each gap gives one entry. -/
theorem rulesFrom_single {all : List (List Char)} (last : all.getLast? = some [])
    (single : ∀ gap ∈ all, gap.length ≤ 1) : rulesFrom 0 all = all.dropLast.map ruleIn := by
  induction all with
  | nil => rfl
  | cons gap rest ih =>
    cases rest with
    | nil =>
      cases last
      rfl
    | cons next rest =>
      rw [List.getLast?_cons_cons] at last
      obtain ⟨one, others⟩ := List.forall_mem_cons.mp single
      rw [rulesFrom, List.dropLast_cons_cons, List.map_cons, ← ih last others]
      match gap, one with
      | [], _ => rfl
      | [bar], _ => rfl

/-- Each bar gives an entry. -/
theorem count_rulesFrom (left : Nat) (all : List (List Char)) :
    (rulesFrom left all).count "solid" = all.flatten.length := by
  have bars (gap : List Char) : (gap.map fun _ => "solid").count "solid" = gap.length := by
    rw [List.map_const', List.count_replicate_self]
  fun_induction rulesFrom left all with
  | case1 => rfl
  | case2 left last => simp
  | case3 left gap next rest ih =>
    rw [List.count_append, List.count_append, bars, ih, List.flatten_cons, List.length_append]
    split <;> simp

/-- As many bars as there are gaps with a bar: no gap has two. -/
theorem single_of_count (all : List (List Char)) :
    (all.map ruleIn).count "solid" ≤ all.flatten.length ∧
      (all.flatten.length ≤ (all.map ruleIn).count "solid" → ∀ gap ∈ all, gap.length ≤ 1) := by
  induction all with
  | nil => simp
  | cons gap rest ih =>
    obtain ⟨most, single⟩ := ih
    rw [List.map_cons, List.flatten_cons, List.length_append, List.count_cons, List.forall_mem_cons]
    have one : (if ruleIn gap == "solid" then 1 else 0) ≤ 1 ∧
        (if ruleIn gap == "solid" then 1 else 0) ≤ gap.length := by
      cases gap <;> simp [ruleIn]
    refine ⟨by omega, fun least => ⟨by omega, single (by omega)⟩⟩

theorem isEntry_ruleIn (gap : List Char) : IsEntry (ruleIn gap) := by
  unfold ruleIn
  split
  · exact .inr rfl
  · exact .inl rfl

theorem isEntry_rulesFrom (left : Nat) (all : List (List Char)) {rule : String} :
    rule ∈ rulesFrom left all → IsEntry rule := by
  have bar (gap : List Char) (mem : rule ∈ gap.map fun _ => "solid") : IsEntry rule := by
    obtain ⟨_, -, rfl⟩ := List.mem_map.mp mem
    exact .inl rfl
  fun_induction rulesFrom left all with
  | case1 => nofun
  | case2 left last => exact bar last
  | case3 left gap next rest ih =>
    rw [List.mem_append, List.mem_append]
    rintro ((here | letter) | behind)
    · exact bar gap here
    · split at letter
      · exact .inr (List.mem_singleton.mp letter)
      · cases letter
    · exact ih behind

/-- The gaps of an alignment are those outside and those between its letters. -/
theorem gaps_parts {chars : List Char} (lettered : ∃ letter ∈ chars, letter ≠ '|') :
    ∃ first inner last, gaps chars = first :: (inner ++ [last]) ∧
      inner.length + 1 = (chars.filter (· ≠ '|')).length := by
  obtain ⟨letter, mem, other⟩ := lettered
  have some : 0 < (chars.filter (· ≠ '|')).length :=
    List.length_pos_of_mem (List.mem_filter.mpr ⟨mem, decide_eq_true other⟩)
  have count := length_gaps chars
  obtain ⟨first, rest, split⟩ := List.exists_cons_of_length_pos (show 0 < (gaps chars).length by omega)
  rw [split, List.length_cons] at count
  rcases List.eq_nil_or_concat' rest with rfl | ⟨inner, last, rfl⟩
  · rw [List.length_nil] at count
    omega
  · rw [List.length_append, List.length_singleton] at count
    exact ⟨first, inner, last, split, by omega⟩

theorem length_flatten_gaps (chars : List Char) : (gaps chars).flatten.length = chars.count '|' := by
  have bars : (fun c => !decide (c ≠ '|')) = (· == '|') := by
    funext c
    rw [beq_eq_decide]
    simp
  rw [gaps, flatten_splitOnP, bars, List.count_eq_length_filter]

/-- The entries for the bars are those of the gaps inside, if there are no other bars than these. -/
theorem rulesFrom_eq_iff (first : List Char) (inner : List (List Char)) (last : List Char) :
    rulesFrom 1 (first :: (inner ++ [last])) = inner.map ruleIn ↔
      first = [] ∧ last = [] ∧ ∀ gap ∈ inner, gap.length ≤ 1 := by
  constructor
  · intro same
    have bars := count_rulesFrom 1 (first :: (inner ++ [last]))
    obtain ⟨most, single⟩ := single_of_count inner
    rw [same, List.flatten_cons, List.length_append, List.flatten_append, List.length_append,
      List.flatten_singleton] at bars
    exact ⟨List.eq_nil_of_length_eq_zero (by omega), List.eq_nil_of_length_eq_zero (by omega),
      single (by omega)⟩
  · rintro ⟨rfl, rfl, single⟩
    have all : ∀ gap ∈ inner ++ [[]], gap.length ≤ 1 := by
      intro gap mem
      rcases List.mem_append.mp mem with inside | outside
      · exact single gap inside
      · rw [List.mem_singleton.mp outside]
        exact Nat.zero_le 1
    rw [rulesFrom_letter 1 (List.concat_ne_nil [] inner), rulesFrom_single List.getLast?_concat all,
      List.dropLast_concat]
    rfl

/-- The rules of an alignment are one entry for each of its bars, and one for each letter behind the first for
which no entry is left over. These are the entries of the gaps between its letters, in order, just where no
bar stands outside and no two bars stand together. -/
theorem splitAlignment_gaps {alignment : String} (ruled : '|' ∈ alignment.toList)
    (lettered : ∃ letter ∈ alignment.toList, letter ≠ '|') :
    let letters := alignment.toList.filter (· ≠ '|')
    let rules := rulesFrom 1 (gaps alignment.toList)
    splitAlignment alignment = (letters, some rules) ∧
      rules.count "solid" = alignment.toList.count '|' ∧
      ∃ first inner last, gaps alignment.toList = first :: (inner ++ [last]) ∧
        inner.length + 1 = letters.length ∧
        (" ".intercalate rules = " ".intercalate (inner.map ruleIn) ↔
          first = [] ∧ last = [] ∧ ∀ gap ∈ inner, gap.length ≤ 1) := by
  intro letters rules
  have bars : rules.count "solid" = alignment.toList.count '|' :=
    (count_rulesFrom 1 _).trans (length_flatten_gaps alignment.toList)
  obtain ⟨first, inner, last, parts, between⟩ := gaps_parts lettered
  have entries : ∀ rule ∈ inner.map ruleIn, IsEntry rule := by
    intro rule mem
    obtain ⟨gap, -, rfl⟩ := List.mem_map.mp mem
    exact isEntry_ruleIn gap
  refine ⟨splitAlignment_eq ruled, bars, first, inner, last, parts, between, ?_⟩
  rw [intercalate_inj (fun _ => isEntry_rulesFrom 1 _) entries, parts]
  exact rulesFrom_eq_iff first inner last

/-- A rule between the first two of three columns. -/
theorem splitAlignment_gaps_one :
    ∃ rules, splitAlignment "l|cr" = (['l', 'c', 'r'], some rules) ∧
      " ".intercalate rules = "solid none" := by
  obtain ⟨split, -, first, inner, last, parts, -, same⟩ :=
    splitAlignment_gaps (show '|' ∈ "l|cr".toList by decide) ⟨'l', by decide, by decide⟩
  obtain ⟨none, behind⟩ := List.cons.inj (show [] :: ([['|'], []] ++ [[]]) = _ from parts)
  obtain ⟨rfl, last'⟩ := List.append_inj' behind rfl
  exact ⟨_, split, same.mpr ⟨none.symm, (List.cons.inj last').1.symm, by decide⟩⟩

/-- Rules outside stand among the entries for the gaps between the columns. -/
theorem outer_rules_shift :
    gaps "|c|c|".toList = [['|'], ['|'], ['|']] ∧
      splitAlignment "|c|c|" = (['c', 'c'], some ["solid", "solid", "solid"]) ∧
      Converter.toElement {} "\\begin\x7barray\x7d\x7b|c|c|\x7d1&2\\end\x7barray\x7d" .inline =
        .ok ⟨"math", [("display", "inline")], "", [.holding "mrow" [
          ⟨"mtable", [("columnlines", "solid solid solid")], "", [.holding "mtr" [
            ⟨"mtd", [("columnalign", "center")], "", [.ofText "mn" "1"]⟩,
            ⟨"mtd", [("columnalign", "center")], "", [.ofText "mn" "2"]⟩]]⟩]]⟩ := by
  refine ⟨by decide, by decide, ?_⟩
  decide +kernel

/-! ## Lines above rows -/

/-- Whether a row starts with a line. -/
def lined (row : List Node) : Bool := row.head?.any (·.is "\\hline")

/-- The entry for the line above a row. -/
def lineAbove (row : List Node) : String := if lined row then "solid" else "none"

/-- The nodes of a row that say there is no line above it. -/
def contents (row : List Node) : Nat := row.countP fun node => role node.token = .content

theorem isEntry_lineAbove (row : List Node) : IsEntry (lineAbove row) := by
  unfold lineAbove
  split
  · exact .inl rfl
  · exact .inr rfl

theorem contents_cons (first : Node) (rest : List Node) :
    contents (first :: rest) = contents rest + if role first.token = .content then 1 else 0 := by
  simp [contents, List.countP_cons]

/-- The lines behind the end of a row. -/
def Lines.below (lines : Lines) : Lines := { lines with ended := lines.ended + 1 }

/-- The lines behind some rows. -/
def Lines.overRows (lines : Lines) : List (List Node) → Lines
  | [] => lines
  | row :: rest => rest.foldl (fun lines row => lines.below.over row) (lines.over row)

theorem after_rowEnd {node : Node} (ends : node.endsRow = true) (lines : Lines) :
    lines.after (node.token, []) = lines.below := by
  rw [endsRow_eq, decide_eq_true_eq] at ends
  unfold Lines.after Item.role
  rw [ends]
  rfl

/-- The lines behind the nodes of a body are those behind its rows. -/
theorem over_splitOnP (nodes : List Node) (lines : Lines) :
    lines.over nodes = lines.overRows (nodes.splitOnP Node.endsRow) := by
  induction nodes generalizing lines with
  | nil => rfl
  | cons first rest ih =>
    obtain ⟨row, rows, split⟩ := List.exists_cons_of_ne_nil (List.splitOnP_ne_nil Node.endsRow rest)
    rw [List.splitOnP_cons_eq_if_modifyHead, over_cons, ih, split]
    cases ends : first.endsRow with
    | true =>
      rw [after_rowEnd ends, if_pos rfl]
      rfl
    | false => rfl

/-- A node that neither is a line nor ends a row. -/
def Unruled (node : Node) : Prop :=
  node.endsRow = false ∧ node.is "\\hline" = false ∧ node.is "\\hdashline" = false

theorem after_unruled {node : Node} (unruled : Unruled node) (lines : Lines) :
    lines.after (node.token, []) =
      if role node.token = .content ∧ lines.kinds.length < lines.ended then
        { lines with kinds := lines.kinds ++ ["none"] }
      else lines := by
  obtain ⟨inRow, solid, dashed⟩ := unruled
  rw [endsRow_eq, decide_eq_false_iff_not] at inRow
  have has := role_has node.token
  unfold Lines.after Item.role
  cases r : role node.token with
  | rowEnd => exact absurd r inRow
  | line kind =>
    rw [r] at has
    rcases has with ⟨named, -⟩ | ⟨named, -⟩
    · simp [Node.is, named] at solid
    · simp [Node.is, named] at dashed
  | content => simp
  | cellEnd => simp
  | fill => simp
  | group => simp

/-- Content gives the entries that are still to be given. -/
theorem over_unruled {nodes : List Node} (unruled : ∀ node ∈ nodes, Unruled node) (lines : Lines) :
    lines.over nodes = { lines with
      kinds := lines.kinds ++
        List.replicate (min (lines.ended - lines.kinds.length) (contents nodes)) "none" } := by
  induction nodes generalizing lines with
  | nil => simp [Lines.over, contents]
  | cons first rest ih =>
    obtain ⟨here, others⟩ := List.forall_mem_cons.mp unruled
    rw [over_cons, after_unruled here, ih others, contents_cons]
    by_cases content : role first.token = .content
    · by_cases short : lines.kinds.length < lines.ended
      · have more : min (lines.ended - lines.kinds.length) (contents rest + 1) =
            min (lines.ended - (lines.kinds.length + 1)) (contents rest) + 1 := by omega
        simp [content, short, more, List.replicate_succ]
      · have none : lines.ended - lines.kinds.length = 0 := by omega
        simp [short, none]
    · simp [content]

/-- The entries that are to be given in a row which starts with a line or not. -/
def due (owed : Nat) (row : List Node) : Nat := if lined row then owed else owed + 1

theorem due_add (owed : Nat) (row : List Node) :
    (if lined row then ["solid"] else []).length + due owed row = owed + 1 := by
  unfold due
  split
  · exact Nat.add_comm 1 owed
  · exact Nat.zero_add (owed + 1)

/-- The entries that rows give, where some of the rows before still owe theirs: a line gives its own at
once, and content gives one after the other of those that are owed. -/
def linesFrom : Nat → List (List Node) → List String
  | _, [] => []
  | owed, row :: rest =>
    (if lined row then ["solid"] else []) ++
      List.replicate (min (due owed row) (contents row)) "none" ++
        linesFrom (due owed row - contents row) rest

/-- The entries that are owed behind some rows; none if a line comes when some are owed. -/
def settle : Nat → List (List Node) → Option Nat
  | owed, [] => some owed
  | owed, row :: rest =>
    if lined row && owed != 0 then none else settle (due owed row - contents row) rest

/-- A row in which there is no line but at its start. -/
structure Ruled (row : List Node) : Prop where
  inRow : ∀ node ∈ row, node.endsRow = false
  dashed : ∀ node ∈ row, node.is "\\hdashline" = false
  behind : ∀ node ∈ row.tail, node.is "\\hline" = false

theorem Ruled.unruled {row : List Node} (ruled : Ruled row) (unlined : lined row = false) :
    ∀ node ∈ row, Unruled node := by
  intro node mem
  refine ⟨ruled.inRow node mem, ?_, ruled.dashed node mem⟩
  cases row with
  | nil => cases mem
  | cons first rest =>
    rcases List.mem_cons.mp mem with rfl | later
    · exact unlined
    · exact ruled.behind node later

theorem over_ruled {row : List Node} (ruled : Ruled row) (lines : Lines) (owed : Nat)
    (level : lines.kinds.length + owed + 1 = lines.ended) :
    lines.over row = { lines with
      kinds := lines.kinds ++ ((if lined row then ["solid"] else []) ++
        List.replicate (min (due owed row) (contents row)) "none") } := by
  cases line : lined row with
  | false =>
    have still : lines.ended - lines.kinds.length = owed + 1 := by omega
    rw [over_unruled (ruled.unruled line)]
    simp [due, line, still]
  | true =>
    cases row with
    | nil => cases line
    | cons first rest =>
      have named : first.token = "\\hline" := beq_iff_eq.mp line
      have drawn : lines.after (first.token, []) = { lines with kinds := lines.kinds ++ ["solid"] } := by
        rw [named]
        rfl
      have unruled : ∀ node ∈ rest, Unruled node := fun node mem =>
        have here := List.mem_cons_of_mem first mem
        ⟨ruled.inRow node here, ruled.behind node mem, ruled.dashed node here⟩
      have still : lines.ended - (lines.kinds.length + 1) = owed := by omega
      have alone : role first.token ≠ .content := by
        rw [named]
        decide
      rw [over_cons, drawn, over_unruled unruled, contents_cons]
      simp [due, line, still, alone]

/-- The lines behind rows, to begin with behind the end of a row. -/
theorem foldl_ruled {rows : List (List Node)} (ruled : ∀ row ∈ rows, Ruled row) (lines : Lines)
    (owed : Nat) (level : lines.kinds.length + owed = lines.ended) :
    (rows.foldl (fun lines row => lines.below.over row) lines).kinds =
      lines.kinds ++ linesFrom owed rows := by
  induction rows generalizing lines owed with
  | nil => exact (List.append_nil _).symm
  | cons row rest ih =>
    obtain ⟨here, others⟩ := List.forall_mem_cons.mp ruled
    have below : lines.below.kinds.length + owed + 1 = lines.below.ended := congrArg (· + 1) level
    rw [List.foldl_cons, over_ruled here lines.below owed below,
      ih others _ (due owed row - contents row), linesFrom]
    · exact List.append_assoc _ _ _
    · dsimp only
      rw [List.length_append, List.length_append, List.length_replicate]
      have line := due_add owed row
      omega

/-- What rows give are the entries for the lines above them, behind those that are owed, just where no
line comes too early. -/
theorem linesFrom_prefix (owed : Nat) (rows : List (List Node)) :
    linesFrom owed rows <+: List.replicate owed "none" ++ rows.map lineAbove ↔
      (settle owed rows).isSome := by
  fun_induction settle owed rows with
  | case1 owed => simp [linesFrom]
  | case2 owed row rest early =>
    obtain ⟨line, some⟩ := Bool.and_eq_true_iff.mp early
    obtain ⟨more, rfl⟩ := Nat.exists_eq_succ_of_ne_zero (bne_iff_ne.mp some)
    simp [linesFrom, line, List.replicate_succ]
  | case3 owed row rest prompt ih =>
    rw [← ih, linesFrom, List.map_cons]
    cases line : lined row with
    | true =>
      obtain rfl : owed = 0 := by simpa [line] using prompt
      simp [due, line, lineAbove]
    | false =>
      have given : owed + 1 = min (owed + 1) (contents row) + (owed + 1 - contents row) := by omega
      have entries : List.replicate owed "none" ++ "none" :: rest.map lineAbove =
          List.replicate (min (owed + 1) (contents row)) "none" ++
            (List.replicate (owed + 1 - contents row) "none" ++ rest.map lineAbove) := by
        rw [← List.append_assoc, List.replicate_append_replicate, ← given, List.replicate_succ',
          List.append_assoc]
        rfl
      simp only [due, line, lineAbove, Bool.false_eq_true, if_false, List.nil_append]
      rw [entries, List.prefix_append_right_inj]

/-- Each row is due one entry. -/
theorem length_linesFrom (owed : Nat) (rows : List (List Node)) {left : Nat}
    (settled : settle owed rows = some left) :
    (linesFrom owed rows).length + left = owed + rows.length := by
  fun_induction settle owed rows with
  | case1 owed =>
    cases settled
    simp [linesFrom]
  | case2 owed row rest early => cases settled
  | case3 owed row rest prompt ih =>
    have behind := ih settled
    rw [linesFrom, List.length_append, List.length_append, List.length_replicate, List.length_cons]
    have line := due_add owed row
    omega

/-- What rows give are the entries for the lines above the first ones of them just where no line comes too
early, and the entries of the others are left at the end. -/
theorem linesFrom_eq_iff (rows : List (List Node)) {shown : Nat} (most : shown ≤ rows.length) :
    linesFrom 0 rows = (rows.take shown).map lineAbove ↔ settle 0 rows = some (rows.length - shown) := by
  have first := linesFrom_prefix 0 rows
  rw [List.replicate_zero, List.nil_append, List.prefix_iff_eq_take, ← List.map_take] at first
  constructor
  · intro same
    have count := congrArg List.length same
    rw [List.length_map, List.length_take, Nat.min_eq_left most] at count
    rw [count] at first
    obtain ⟨left, settled⟩ := Option.isSome_iff_exists.mp (first.mp same)
    have total := length_linesFrom 0 rows settled
    rw [settled]
    congr 1
    omega
  · intro settled
    have total := length_linesFrom 0 rows settled
    have count : (linesFrom 0 rows).length = shown := by omega
    rw [count] at first
    exact first.mpr (Option.isSome_of_eq_some settled)

theorem isEntry_linesFrom (owed : Nat) (rows : List (List Node)) {kind : String} :
    kind ∈ linesFrom owed rows → IsEntry kind := by
  fun_induction linesFrom owed rows with
  | case1 owed => nofun
  | case2 owed row rest ih =>
    rw [List.mem_append, List.mem_append]
    rintro ((line | content) | behind)
    · split at line
      · exact .inl (List.mem_singleton.mp line)
      · cases line
    · exact .inr (List.eq_of_mem_replicate content)
    · exact ih behind

/-- A line gives an entry. -/
theorem solid_mem_linesFrom (owed : Nat) {rows : List (List Node)} {row : List Node}
    (mem : row ∈ rows) (line : lined row = true) : "solid" ∈ linesFrom owed rows := by
  fun_induction linesFrom owed rows with
  | case1 owed => cases mem
  | case2 owed first rest ih =>
    rw [List.mem_append, List.mem_append]
    rcases List.mem_cons.mp mem with rfl | behind
    · rw [if_pos line]
      exact .inl (.inl (List.mem_singleton_self _))
    · exact .inr (ih behind)

/-- Rows in which solid lines stand at the start of some rows, but not of the first one nor of one that is
not shown. -/
structure RowLines (rows : List (List Node)) (shown : Nat) : Prop where
  dashed : ∀ row ∈ rows, ∀ node ∈ row, node.is "\\hdashline" = false
  behind : ∀ row ∈ rows, ∀ node ∈ row.tail, node.is "\\hline" = false
  inside : ∀ (i : Nat) (within : i < rows.length), lined rows[i] = true → 1 ≤ i ∧ i < shown
  any : ∃ row ∈ rows, lined row = true

theorem lineKinds_rows (ctx : Context) {nodes : List Node} {shown : Nat}
    (lines : RowLines (nodes.splitOnP Node.endsRow) shown) :
    lineKinds (Draw.each ctx nodes) = linesFrom 0 (nodes.splitOnP Node.endsRow).tail := by
  obtain ⟨first, rest, split⟩ := List.exists_cons_of_ne_nil (List.splitOnP_ne_nil Node.endsRow nodes)
  have inRow : ∀ row ∈ first :: rest, ∀ node ∈ row, node.endsRow = false := by
    intro row mem node here
    exact ((mem_part Node.endsRow).mp ⟨row, split ▸ mem, here⟩).2
  rw [lineKinds_each, over_splitOnP, split]
  rw [split] at lines
  have ruled : ∀ row ∈ first :: rest, Ruled row := fun row mem =>
    ⟨inRow row mem, lines.dashed row mem, lines.behind row mem⟩
  obtain ⟨here, others⟩ := List.forall_mem_cons.mp ruled
  have unlined : lined first = false := by
    cases line : lined first with
    | false => rfl
    | true => cases (lines.inside 0 (Nat.succ_pos _) line).1
  have start : Lines.over {} first = {} := by
    rw [over_unruled (here.unruled unlined)]
    simp
  rw [Lines.overRows, start, foldl_ruled others {} 0 rfl]
  rfl

theorem attribute?_dress (command : String) {kinds : List String} (columns : Nat) (table : Element)
    (solid : "solid" ∈ kinds) :
    (dress command kinds columns table).attribute? "rowlines" = some (" ".intercalate kinds) := by
  have set (e : Element) (value : String) :
      (e.setAttribute "rowlines" value).attribute? "rowlines" = some value :=
    (Attributes.get?_set e.attributes "rowlines" "rowlines" value).trans (if_pos rfl)
  unfold dress
  rw [if_pos (List.contains_iff_mem.mpr solid)]
  dsimp only
  split
  · rw [Element.attribute?_setAttribute (by decide), set]
  · exact set _ _

/-- Below the first row there is one with a line, which is shown. -/
theorem RowLines.below_first {rows : List (List Node)} {shown : Nat} (lines : RowLines rows shown) :
    1 ≤ shown ∧ ∃ row ∈ rows.tail, lined row = true := by
  obtain ⟨row, mem, line⟩ := lines.any
  obtain ⟨i, within, rfl⟩ := List.getElem_of_mem mem
  obtain ⟨least, most⟩ := lines.inside i within line
  obtain ⟨above, rfl⟩ := Nat.exists_eq_add_of_le' least
  have below : above < rows.tail.length := by
    rw [List.length_tail]
    omega
  refine ⟨by omega, rows.tail[above], List.getElem_mem below, ?_⟩
  rwa [List.getElem_tail]

/-- The lines of a table in which solid lines stand above some rows. There is one entry for each line, and
one for each node of content that finds an entry still owed: a row below the first that has no line owes one,
and groups do not pay. These are the entries for the lines above the rows that are shown, in order, just
where nothing is owed when a line comes, and at the end only the entry of a row that is not shown. -/
theorem fillIn_rowlines (ctx : Context) (command : String) (alignment : List Char) (nodes : List Node)
    (table : Element) :
    let all := nodes.splitOnP Node.endsRow
    let shown := (rows (isPaired command) (lettersFor command alignment) (Draw.each ctx nodes)).length
    let drawn := fillIn command alignment (Draw.each ctx nodes) table
    RowLines all shown →
      let kinds := linesFrom 0 all.tail
      let above := (all.take shown).tail.map lineAbove
      drawn.attribute? "rowlines" = some (" ".intercalate kinds) ∧ above.length = shown - 1 ∧
        (drawn.attribute? "rowlines" = some (" ".intercalate above) ↔
          settle 0 all.tail = some (all.length - shown)) := by
  intro all shown drawn lines kinds above
  obtain ⟨least, row, mem, line⟩ := lines.below_first
  have given : drawn.attribute? "rowlines" = some (" ".intercalate kinds) := by
    have solid : "solid" ∈ kinds := solid_mem_linesFrom 0 mem line
    unfold drawn
    rw [fillIn_eq, lineKinds_rows ctx lines]
    exact attribute?_dress command _ _ solid
  have most : shown ≤ all.length := by
    obtain ⟨first, -⟩ := Draw.rows_prefix ctx command (lettersFor command alignment) nodes
    have count := first.length_le
    rwa [List.length_map, segments, List.length_map] at count
  have entries : ∀ kind ∈ above, IsEntry kind := by
    intro kind mem
    obtain ⟨row, -, rfl⟩ := List.mem_map.mp mem
    exact isEntry_lineAbove row
  refine ⟨given, ?_, ?_⟩
  · rw [List.length_map, List.length_tail, List.length_take, Nat.min_eq_left most]
  · rw [given, Option.some_inj, intercalate_inj (fun _ => isEntry_linesFrom 0 _) entries]
    have within : shown - 1 ≤ all.tail.length := by
      rw [List.length_tail]
      omega
    have others : all.tail.length - (shown - 1) = all.length - shown := by
      rw [List.length_tail]
      omega
    unfold above
    rw [List.tail_take_eq_take_tail, ← others]
    exact linesFrom_eq_iff all.tail within

/-- A line above the last of three rows. The row in front of it has content. -/
theorem fillIn_rowlines_last :
    let ctx : Context := ⟨.known, .plain, false, fun _ => none⟩
    let nodes : List Node :=
      [.leaf "1", .leaf "\\\\", .leaf "2", .leaf "\\\\", .leaf "\\hline", .leaf "3"]
    let drawn := fillIn "\\matrix" [] (Draw.each ctx nodes) (Element.ofTag "mtable")
    drawn.attribute? "rowlines" = some "none solid" := by
  intro ctx nodes drawn
  have three : (rows (isPaired "\\matrix") (lettersFor "\\matrix" []) (Draw.each ctx nodes)).length = 3 := by
    decide +kernel
  have lines : RowLines (nodes.splitOnP Node.endsRow)
      (rows (isPaired "\\matrix") (lettersFor "\\matrix" []) (Draw.each ctx nodes)).length := by
    rw [three]
    exact ⟨by decide, by decide, by decide, _, List.mem_of_getElem? (i := 2) rfl, rfl⟩
  obtain ⟨-, -, same⟩ := fillIn_rowlines ctx "\\matrix" [] nodes (Element.ofTag "mtable") lines
  rw [three] at same
  exact same.mpr (by decide)

/-- A group says nothing about the line above its row, so that the line below it comes too early. -/
theorem group_row_shifts_line :
    let nodes : List Node :=
      [.leaf "1", .leaf "\\\\", .braces [.leaf "2"], .leaf "\\\\", .leaf "\\hline", .leaf "3"]
    let source := "\\begin\x7bmatrix\x7d1\\\\\x7b2\x7d\\\\\\hline 3\\end\x7bmatrix\x7d"
    RowLines (nodes.splitOnP Node.endsRow) 3 ∧
      (nodes.splitOnP Node.endsRow).tail.map lineAbove = ["none", "solid"] ∧
      Converter.parse {} source = .ok [.withChildren "\\matrix" nodes] ∧
      Converter.toElement {} source .inline =
        .ok ⟨"math", [("display", "inline")], "", [.holding "mrow" [
          ⟨"mtable", [("rowlines", "solid none")], "", [
            .holding "mtr" [.holding "mtd" [.ofText "mn" "1"]],
            .holding "mtr" [.holding "mtd" [.holding "mrow" [.ofText "mn" "2"]]],
            .holding "mtr" [.holding "mtd" [.ofText "mn" "3"]]]⟩]]⟩ := by
  intro nodes source
  refine ⟨?_, by decide, ?_, ?_⟩
  · exact ⟨by decide, by decide, by decide, _, List.mem_of_getElem? (i := 2) rfl, rfl⟩
  · decide +kernel
  · decide +kernel

end Table

end FormulaMarkup

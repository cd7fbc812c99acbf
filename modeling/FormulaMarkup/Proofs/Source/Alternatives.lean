import FormulaMarkup.Proofs.Source.Grammar

/-!
The alternatives for a lexeme. Each of them is described by what it matches and by the segments that it is
read as, in the order in which they are tried. Main statement: the scanners find what the grammars match, and
a lexeme is what the first alternative that matches reads.
-/
namespace FormulaMarkup

open Grammar (Match Stops FindsLongest FindsOnly exists_run takeWhile_run dropWhile_run)
open Scan (Command)

namespace Lexeme

/-- What can stand at a place of a line. -/
inductive Alternative where
  | dimension | comment | scriptDigit | number | point | escaped | environmentHeader | operatorName
  | textCommand | shortFraction | command | character
  deriving DecidableEq, Repr

/-- The order in which the alternatives are tried. -/
def Alternative.order : List Alternative :=
  [.dimension, .comment, .scriptDigit, .number, .point, .escaped, .environmentHeader, .operatorName,
    .textCommand, .shortFraction, .command, .character]

/-- The alternatives that are tried before one. -/
def Alternative.earlier (kind : Alternative) : List Alternative := order.takeWhile (· ≠ kind)

/-- A command that stands for the character of a symbol where it opens a line. -/
def Alias (symbols : SymbolTable) (first : Bool) (name : List Char) (c : Char) : Prop :=
  first = true ∧ "math".toList <+: name ∧ symbols.character? (String.ofList ('\\' :: name)) = some c

section Reads

variable (symbols : SymbolTable) (first : Bool)

/-- What an alternative reads at the start of a line. -/
inductive Reads : Alternative → List Char → Reading → Prop
  | dimension {line taken rest : List Char} (matched : Match Grammar.dimension line taken rest) :
      Reads .dimension line ⟨[.withoutBlanks taken], rest⟩
  | comment {cs : List Char} : Reads .comment ('%' :: cs) ⟨[.gap ('%' :: cs)], []⟩
  | scriptDigit {mark digit : Char} {rest : List Char} (isMark : mark = '_' ∨ mark = '^')
      (isDigit : digit.isDigit = true) :
      Reads .scriptDigit (mark :: digit :: rest) ⟨[.token [mark], .token [digit]], rest⟩
  | number {line taken rest : List Char} (matched : Match Grammar.number line taken rest)
      (longest : ∀ other left, Match Grammar.number line other left → other.length ≤ taken.length) :
      Reads .number line ⟨[.token taken], rest⟩
  | point {digits rest : List Char} (all : ∀ c ∈ digits, c.isDigit = true) (ends : Stops Char.isDigit rest) :
      Reads .point ('.' :: (digits ++ rest)) ⟨[.token ('.' :: digits)], rest⟩
  | escaped {c : Char} {rest : List Char} (known : c ∈ escapable ∨ Scan.isBlank c = true) :
      Reads .escaped ('\\' :: c :: rest) ⟨[.token ['\\', c]], rest⟩
  | environmentHeader {line name behind taken rest : List Char} (command : Command line name behind)
      (known : String.ofList name = "begin" ∨ String.ofList name = "end")
      (matched : Match Grammar.environmentName behind taken rest) :
      Reads .environmentHeader line ⟨[.withoutBlanks ('\\' :: name ++ taken)], rest⟩
  | operatorName {line name behind taken rest : List Char} (command : Command line name behind)
      (known : String.ofList name = "operatorname")
      (matched : Match Grammar.operatorName behind taken rest) :
      Reads .operatorName line ⟨[.withoutBlanks ('\\' :: name ++ taken)], rest⟩
  | text {line name gap content rest : List Char}
      (command : Command line name (gap ++ '\x7b' :: (content ++ '\x7d' :: rest)))
      (known : String.ofList name ∈ textCommands) (blank : ∀ c ∈ gap, Scan.isBlank c = true)
      (raw : '\x7d' ∉ content) (filled : content ≠ []) :
      Reads .textCommand line
        ⟨[.token ('\\' :: name), .gap (gap ++ ['\x7b']), .token content, .gap ['\x7d']], rest⟩
  | emptyText {line name gap rest : List Char} (command : Command line name (gap ++ '\x7b' :: '\x7d' :: rest))
      (known : String.ofList name ∈ textCommands) (blank : ∀ c ∈ gap, Scan.isBlank c = true) :
      Reads .textCommand line ⟨[.gap ('\\' :: name ++ (gap ++ ['\x7b', '\x7d']))], rest⟩
  | oneArgument {line name gap gap' rest : List Char} {upper : Char}
      (command : Command line name (gap ++ upper :: (gap' ++ rest)))
      (known : String.ofList name ∈ shortFractions) (blank : ∀ c ∈ gap, Scan.isBlank c = true)
      (short : isShortArgument upper = true) (blank' : ∀ c ∈ gap', Scan.isBlank c = true)
      (ends : Stops Scan.isBlank rest) (other : Stops isShortArgument rest) :
      Reads .shortFraction line ⟨[.token ('\\' :: name), .gap gap, .token [upper]], gap' ++ rest⟩
  | twoArguments {line name gap gap' rest : List Char} {upper under : Char}
      (command : Command line name (gap ++ upper :: (gap' ++ under :: rest)))
      (known : String.ofList name ∈ shortFractions) (blank : ∀ c ∈ gap, Scan.isBlank c = true)
      (short : isShortArgument upper = true) (blank' : ∀ c ∈ gap', Scan.isBlank c = true)
      (short' : isShortArgument under = true) :
      Reads .shortFraction line
        ⟨[.token ('\\' :: name), .gap gap, .token [upper], .gap gap', .token [under]], rest⟩
  | command {line name rest : List Char} (command : Command line name rest)
      (plain : ∀ c, ¬ Alias symbols first name c) : Reads .command line ⟨[.token ('\\' :: name)], rest⟩
  | symbol {line name rest : List Char} {c : Char} (command : Command line name rest)
      (stands : Alias symbols first name c) : Reads .command line ⟨[⟨'\\' :: name, some [c]⟩], rest⟩
  | character {c : Char} {cs : List Char} : Reads .character (c :: cs) ⟨[.token [c]], cs⟩

/-- What is read by the first alternative that matches. -/
def FirstReads (line : List Char) (r : Reading) : Prop :=
  ∃ kind, Reads symbols first kind line r ∧
    ∀ earlier ∈ Alternative.earlier kind, ∀ other, ¬ Reads symbols first earlier line other

/-- The rule for an alternative. -/
def Alternative.rule : Alternative → List Char → Option Reading
  | .dimension => dimension?
  | .comment => comment?
  | .scriptDigit => scriptDigit?
  | .number => number?
  | .point => point?
  | .escaped => escaped?
  | .environmentHeader => environmentHeader?
  | .operatorName => operatorName?
  | .textCommand => rawArgument?
  | .shortFraction => shortFraction?
  | .command => command? symbols first
  | .character => fun line => line.head?.map fun c => ⟨[.token [c]], line.tail⟩

end Reads

/-! ## The rules one by one -/

section Rules

variable {symbols : SymbolTable} {first : Bool} {line : List Char} {r : Reading}

theorem reads_dimension : dimension? line = some r ↔ Reads symbols first .dimension line r := by
  rw [dimension?, Option.map_eq_some_iff]
  constructor
  · rintro ⟨⟨taken, rest⟩, found, rfl⟩
    exact .dimension (Scan.dimension?_eq_some_iff.mp found)
  · rintro ⟨matched⟩
    exact ⟨_, Scan.dimension?_eq_some_iff.mpr matched, rfl⟩

theorem reads_comment : comment? line = some r ↔ Reads symbols first .comment line r := by
  constructor
  · intro found
    unfold comment? at found
    split at found
    · obtain rfl := by simpa using found
      exact .comment
    · contradiction
  · rintro ⟨⟩
    rfl

theorem reads_scriptDigit : scriptDigit? line = some r ↔ Reads symbols first .scriptDigit line r := by
  constructor
  · intro found
    unfold scriptDigit? at found
    split at found
    · split at found
      · rename_i both
        obtain rfl := by simpa using found
        exact .scriptDigit both.1 both.2
      · contradiction
    · contradiction
  · intro reads
    cases reads with
    | scriptDigit isMark isDigit => exact if_pos ⟨isMark, isDigit⟩

theorem reads_number : number? line = some r ↔ Reads symbols first .number line r := by
  have longest := Scan.number?_findsLongest line
  constructor
  · intro found
    rw [number?] at found
    obtain ⟨⟨taken, rest⟩, scanned, rfl⟩ := Option.map_eq_some_iff.mp found
    rw [scanned] at longest
    exact .number longest.1 longest.2
  · intro reads
    obtain ⟨taken, rest, rfl, matched, most⟩ : ∃ taken rest, r = ⟨[.token taken], rest⟩ ∧
        Match Grammar.number line taken rest ∧
          ∀ other left, Match Grammar.number line other left → other.length ≤ taken.length := by
      cases reads with
      | number matched most => exact ⟨_, _, rfl, matched, most⟩
    cases found : Scan.number? line with
    | none =>
      rw [found] at longest
      exact absurd matched (longest taken rest)
    | some result =>
      obtain ⟨other, left⟩ := result
      rw [found] at longest
      obtain ⟨found', longest⟩ := longest
      have same : other = taken := by
        apply List.IsPrefix.eq_of_length_le
        · exact List.prefix_of_prefix_length_le ⟨left, found'.whole⟩ ⟨rest, matched.whole⟩
            (most other left found')
        · exact longest taken rest matched
      subst same
      have rests := List.append_cancel_left (found'.whole.trans matched.whole.symm)
      rw [number?, found, rests]
      rfl

theorem reads_point : point? line = some r ↔ Reads symbols first .point line r := by
  constructor
  · intro found
    unfold point? at found
    split at found
    · rename_i cs
      obtain ⟨digits, rest, rfl, all, stops⟩ := exists_run Char.isDigit cs
      rw [takeWhile_run all stops, dropWhile_run all stops] at found
      obtain rfl := by simpa using found
      exact .point all stops
    · contradiction
  · intro reads
    cases reads with
    | point all stops => rw [point?, takeWhile_run all stops, dropWhile_run all stops]

theorem reads_escaped : escaped? line = some r ↔ Reads symbols first .escaped line r := by
  have known (c : Char) : (escapable.contains c || Scan.isBlank c) = true ↔
      c ∈ escapable ∨ Scan.isBlank c = true := by
    rw [Bool.or_eq_true, List.contains_iff_mem]
  constructor
  · intro found
    unfold escaped? at found
    split at found
    · split at found
      · rename_i c rest held
        obtain rfl := Option.some.inj found
        exact .escaped ((known c).mp held)
      · cases found
    · cases found
  · intro reads
    cases reads with
    | escaped held => exact if_pos ((known _).mpr held)

theorem reads_environmentHeader :
    environmentHeader? line = some r ↔ Reads symbols first .environmentHeader line r := by
  constructor
  · intro found
    unfold environmentHeader? at found
    split at found
    · contradiction
    · rename_i name behind command
      split at found
      · rename_i known
        obtain ⟨⟨taken, rest⟩, named, rfl⟩ := Option.map_eq_some_iff.mp found
        exact .environmentHeader (Scan.command?_eq_some_iff.mp command) known
          (Scan.environmentName?_eq_some_iff.mp named)
      · contradiction
  · intro reads
    cases reads with
    | environmentHeader command known matched =>
      rw [environmentHeader?, Scan.command?_eq_some_iff.mpr command]
      dsimp only
      rw [if_pos known, Scan.environmentName?_eq_some_iff.mpr matched]
      rfl

theorem reads_operatorName : operatorName? line = some r ↔ Reads symbols first .operatorName line r := by
  constructor
  · intro found
    unfold operatorName? at found
    split at found
    · contradiction
    · rename_i name behind command
      split at found
      · rename_i known
        obtain ⟨⟨taken, rest⟩, named, rfl⟩ := Option.map_eq_some_iff.mp found
        exact .operatorName (Scan.command?_eq_some_iff.mp command) known
          (Scan.operatorName?_eq_some_iff.mp named)
      · contradiction
  · intro reads
    cases reads with
    | operatorName command known matched =>
      rw [operatorName?, Scan.command?_eq_some_iff.mpr command]
      dsimp only
      rw [if_pos known, Scan.operatorName?_eq_some_iff.mpr matched]
      rfl

theorem reads_textCommand : rawArgument? line = some r ↔ Reads symbols first .textCommand line r := by
  constructor
  · intro found
    unfold rawArgument? at found
    split at found
    · contradiction
    · rename_i name behind named
      have command := Scan.command?_eq_some_iff.mp named
      split at found
      · rename_i known
        obtain ⟨gap, braced, rfl, blank, stops⟩ := exists_run Scan.isBlank behind
        rw [takeWhile_run blank stops, dropWhile_run blank stops] at found
        split at found
        · rename_i inner
          obtain ⟨content, closed, rfl, raw, stops⟩ := exists_run (fun c => decide (c ≠ '\x7d')) inner
          simp only [takeWhile_run raw stops, dropWhile_run raw stops] at found
          have free : '\x7d' ∉ content := fun held => by simpa using raw _ held
          cases closed with
          | nil => contradiction
          | cons closing rest =>
            obtain rfl : closing = '\x7d' := by simpa using stops closing rfl
            dsimp only at found
            split at found
            · rename_i nothing
              obtain rfl := List.isEmpty_iff.mp nothing
              obtain rfl := by simpa using found
              have reads : Reads symbols first .textCommand line _ :=
                .emptyText command (List.contains_iff_mem.mp known) blank
              simpa using reads
            · rename_i filled
              obtain rfl := by simpa using found
              exact .text command (List.contains_iff_mem.mp known) blank free (by simpa using filled)
        · contradiction
      · contradiction
  · intro reads
    cases reads with
    | @text _ name gap content rest command known blank raw filled =>
      have brace : Stops Scan.isBlank ('\x7b' :: (content ++ '\x7d' :: rest)) := .cons rfl
      have closing : Stops (fun c => decide (c ≠ '\x7d')) ('\x7d' :: rest) := .cons rfl
      have inside : ∀ c ∈ content, decide (c ≠ '\x7d') = true :=
        fun c held => decide_eq_true (ne_of_mem_of_not_mem held raw)
      rw [rawArgument?, Scan.command?_eq_some_iff.mpr command]
      dsimp only
      rw [if_pos (List.contains_iff_mem.mpr known), takeWhile_run blank brace, dropWhile_run blank brace]
      simp only [takeWhile_run inside closing, dropWhile_run inside closing]
      rw [if_neg (by simpa using filled)]
    | @emptyText _ name gap rest command known blank =>
      have brace : Stops Scan.isBlank ('\x7b' :: '\x7d' :: rest) := .cons rfl
      rw [rawArgument?, Scan.command?_eq_some_iff.mpr command]
      dsimp only
      rw [if_pos (List.contains_iff_mem.mpr known), takeWhile_run blank brace, dropWhile_run blank brace]
      simp

theorem visible_of_short {c : Char} (short : isShortArgument c = true) : Scan.isBlank c = false := by
  by_contra blank
  rw [Bool.not_eq_false, Scan.isBlank, decide_eq_true_iff] at blank
  rcases blank with rfl | rfl | rfl | rfl | rfl <;> contradiction

theorem reads_shortFraction :
    shortFraction? line = some r ↔ Reads symbols first .shortFraction line r := by
  constructor
  · intro found
    unfold shortFraction? at found
    split at found
    · contradiction
    · rename_i name behind named
      have command := Scan.command?_eq_some_iff.mp named
      split at found
      · rename_i known
        rw [List.contains_iff_mem] at known
        obtain ⟨gap, arguments, rfl, blank, stops⟩ := exists_run Scan.isBlank behind
        rw [takeWhile_run blank stops, dropWhile_run blank stops] at found
        split at found
        · rename_i upper between
          split at found
          · rename_i short
            obtain ⟨gap', more, rfl, blank', stops'⟩ := exists_run Scan.isBlank between
            simp only [takeWhile_run blank' stops', dropWhile_run blank' stops'] at found
            split at found
            · rename_i under rest
              split at found
              · rename_i short'
                obtain rfl := by simpa using found
                exact .twoArguments command known blank short blank' short'
              · rename_i other
                obtain rfl := by simpa using found
                exact .oneArgument command known blank short blank' stops' (.cons (by simpa using other))
            · obtain rfl := by simpa using found
              have reads : Reads symbols first .shortFraction line _ :=
                .oneArgument command known blank short blank' .nil .nil
              simpa using reads
          · contradiction
        · contradiction
      · contradiction
  · intro reads
    cases reads with
    | oneArgument command known blank short blank' ends other =>
      rw [shortFraction?, Scan.command?_eq_some_iff.mpr command]
      dsimp only
      rw [if_pos (List.contains_iff_mem.mpr known), takeWhile_run blank (.cons (visible_of_short short)),
        dropWhile_run blank (.cons (visible_of_short short))]
      dsimp only
      rw [if_pos short, takeWhile_run blank' ends, dropWhile_run blank' ends]
      split
      · rename_i under rest
        rw [if_neg (by rw [other under rfl]; exact Bool.false_ne_true)]
      · rfl
    | twoArguments command known blank short blank' short' =>
      rw [shortFraction?, Scan.command?_eq_some_iff.mpr command]
      dsimp only
      rw [if_pos (List.contains_iff_mem.mpr known), takeWhile_run blank (.cons (visible_of_short short)),
        dropWhile_run blank (.cons (visible_of_short short))]
      dsimp only
      rw [if_pos short, takeWhile_run blank' (.cons (visible_of_short short')),
        dropWhile_run blank' (.cons (visible_of_short short'))]
      dsimp only
      rw [if_pos short']
      rfl

theorem reads_command : command? symbols first line = some r ↔ Reads symbols first .command line r := by
  have symbol (name : List Char) (c : Char) :
      (if first && "math".toList.isPrefixOf name then symbols.character? (String.ofList ('\\' :: name))
        else none) = some c ↔ Alias symbols first name c := by
    rw [Alias, Option.ite_none_right_eq_some, Bool.and_eq_true, List.isPrefixOf_iff_prefix, and_assoc]
  constructor
  · intro found
    unfold command? at found
    split at found
    · contradiction
    · rename_i name rest named
      have command := Scan.command?_eq_some_iff.mp named
      dsimp only at found
      split at found
      · rename_i c stands
        obtain rfl := by simpa using found
        exact .symbol command ((symbol name c).mp stands)
      · rename_i plain
        obtain rfl := by simpa using found
        refine .command command fun c stands => ?_
        rw [(symbol name c).mpr stands] at plain
        cases plain
  · intro reads
    cases reads with
    | @command _ name rest command plain =>
      rw [command?, Scan.command?_eq_some_iff.mpr command]
      dsimp only
      split
      · rename_i c stands
        exact absurd ((symbol name c).mp stands) (plain c)
      · rfl
    | @symbol _ name rest c command stands =>
      rw [command?, Scan.command?_eq_some_iff.mpr command]
      dsimp only
      rw [(symbol name c).mpr stands]

theorem rule_eq_some_iff (kind : Alternative) :
    kind.rule symbols first line = some r ↔ Reads symbols first kind line r := by
  cases kind with
  | dimension => exact reads_dimension
  | comment => exact reads_comment
  | scriptDigit => exact reads_scriptDigit
  | number => exact reads_number
  | point => exact reads_point
  | escaped => exact reads_escaped
  | environmentHeader => exact reads_environmentHeader
  | operatorName => exact reads_operatorName
  | textCommand => exact reads_textCommand
  | shortFraction => exact reads_shortFraction
  | command => exact reads_command
  | character =>
    constructor
    · intro found
      obtain ⟨c, starts, rfl⟩ := Option.map_eq_some_iff.mp found
      cases line with
      | nil => cases starts
      | cons c cs =>
        cases starts
        exact .character
    · intro reads
      cases reads with
      | character => rfl

end Rules

/-! ## The first alternative -/

theorem findSome?_order (symbols : SymbolTable) (first : Bool) (c : Char) (cs : List Char) :
    Alternative.order.findSome? (fun kind => kind.rule symbols first (c :: cs)) =
      some (read symbols first c cs) := by
  have ordered : Alternative.order.map (Alternative.rule symbols first) =
      rules symbols first ++ [Alternative.rule symbols first .character] := rfl
  have mapped : Alternative.order.findSome? (fun kind => kind.rule symbols first (c :: cs)) =
      (Alternative.order.map (Alternative.rule symbols first)).findSome? fun rule => rule (c :: cs) := by
    rw [List.findSome?_map]
    rfl
  rw [mapped, ordered, List.findSome?_append, read]
  cases (rules symbols first).findSome? fun rule => rule (c :: cs) <;> rfl

theorem order_eq (kind : Alternative) : ∃ after, Alternative.order = kind.earlier ++ kind :: after := by
  cases kind <;> exact ⟨_, rfl⟩

theorem earlier_eq {kind : Alternative} {before after : List Alternative}
    (split : Alternative.order = before ++ kind :: after) : before = kind.earlier := by
  have once : Alternative.order.Nodup := by decide
  rw [split] at once
  have others : ∀ earlier ∈ before, decide (earlier ≠ kind) = true := by
    intro earlier listed
    exact decide_eq_true fun same =>
      (List.nodup_append.mp once).2.2 earlier listed kind List.mem_cons_self same
  rw [Alternative.earlier, split, List.takeWhile_append_of_pos others,
    List.takeWhile_cons_of_neg (by simp), List.append_nil]

/-- A lexeme is what the first alternative that matches reads. -/
theorem read_eq_iff {symbols : SymbolTable} {first : Bool} {c : Char} {cs : List Char} {r : Reading} :
    read symbols first c cs = r ↔ FirstReads symbols first (c :: cs) r := by
  have fails (kind : Alternative) : kind.rule symbols first (c :: cs) = none ↔
      ∀ other, ¬ Reads symbols first kind (c :: cs) other := by
    rw [Option.eq_none_iff_forall_ne_some]
    exact forall_congr' fun other => not_congr (rule_eq_some_iff kind)
  rw [← Option.some_inj, ← findSome?_order, List.findSome?_eq_some_iff]
  constructor
  · rintro ⟨before, kind, after, split, found, none⟩
    rw [earlier_eq split] at none
    exact ⟨kind, (rule_eq_some_iff kind).mp found, fun earlier listed => (fails earlier).mp (none earlier listed)⟩
  · rintro ⟨kind, reads, none⟩
    obtain ⟨after, split⟩ := order_eq kind
    exact ⟨kind.earlier, kind, after, split, (rule_eq_some_iff kind).mpr reads,
      fun earlier listed => (fails earlier).mpr (none earlier listed)⟩

/-- The character that an alternative starts with. -/
def Alternative.opens : Alternative → Char → Bool
  | .dimension => fun c => c == '-' || c.isDigit
  | .comment => (· == '%')
  | .scriptDigit => fun c => c == '_' || c == '^'
  | .number => Char.isDigit
  | .point => (· == '.')
  | .character => fun _ => true
  | _ => (· == '\\')

theorem Reads.opens {symbols : SymbolTable} {first : Bool} {kind : Alternative} {c : Char} {cs : List Char}
    {r : Reading} (reads : Reads symbols first kind (c :: cs) r) : kind.opens c = true := by
  have named {name behind : List Char} (command : Command (c :: cs) name behind) : (c == '\\') = true :=
    beq_iff_eq.mpr (List.cons.inj command.whole).1.symm
  cases reads with
  | dimension matched =>
    obtain ⟨sign, isSign, n, isNumber, gap, blank, a, b, known, same⟩ := Grammar.mem_dimension.mp matched.matched
    obtain ⟨d, ds, rfl, digit⟩ := Scan.digit_of_number isNumber
    have whole := matched.whole
    rw [same] at whole
    rcases isSign with rfl | rfl
    · obtain ⟨rfl, -⟩ := List.cons.inj whole
      simp [Alternative.opens, digit]
    · obtain ⟨rfl, -⟩ := List.cons.inj whole
      rfl
  | comment => rfl
  | scriptDigit isMark isDigit => simpa [Alternative.opens] using isMark
  | number matched longest =>
    obtain ⟨d, ds, rfl, digit⟩ := Scan.digit_of_number matched.matched
    obtain ⟨rfl, -⟩ := List.cons.inj matched.whole
    exact digit
  | point => rfl
  | escaped => rfl
  | environmentHeader command => exact named command
  | operatorName command => exact named command
  | text command => exact named command
  | emptyText command => exact named command
  | oneArgument command => exact named command
  | twoArguments command => exact named command
  | command command => exact named command
  | symbol command => exact named command
  | character => rfl

/-! ## Alternatives that a line rules out -/

/-- The names of the commands that an alternative is for. -/
def Alternative.names : Alternative → List String
  | .environmentHeader => ["begin", "end"]
  | .operatorName => ["operatorname"]
  | .textCommand => textCommands
  | .shortFraction => shortFractions
  | _ => []

section Others

variable {symbols : SymbolTable} {first : Bool} {kind : Alternative} {line name behind : List Char} {r : Reading}

theorem not_reads {c : Char} {cs : List Char} (other : kind.opens c = false) :
    ¬ Reads symbols first kind (c :: cs) r := by
  intro reads
  rw [reads.opens] at other
  cases other

/-- What an alternative for some commands reads is one of them. -/
theorem Reads.named (reads : Reads symbols first kind line r) (command : Command line name behind)
    (some : kind.names ≠ []) : String.ofList name ∈ kind.names := by
  cases reads with
  | environmentHeader command' known =>
    obtain ⟨rfl, -⟩ := command.unique command'
    simpa [Alternative.names] using known
  | operatorName command' known =>
    obtain ⟨rfl, -⟩ := command.unique command'
    simpa [Alternative.names] using known
  | text command' known =>
    obtain ⟨rfl, -⟩ := command.unique command'
    exact known
  | emptyText command' known =>
    obtain ⟨rfl, -⟩ := command.unique command'
    exact known
  | oneArgument command' known =>
    obtain ⟨rfl, -⟩ := command.unique command'
    exact known
  | twoArguments command' known =>
    obtain ⟨rfl, -⟩ := command.unique command'
    exact known
  | _ => contradiction

/-- Only the alternatives for commands read a command. -/
theorem not_reads_command (command : Command line name behind)
    (early : kind ∈ [.dimension, .comment, .scriptDigit, .number, .point, .escaped]) :
    ¬ Reads symbols first kind line r := by
  obtain ⟨filled, letters, -, rfl⟩ := command
  obtain ⟨c, cs, rfl⟩ := List.exists_cons_of_ne_nil filled
  have letter := letters c List.mem_cons_self
  simp only [List.mem_cons, List.not_mem_nil, or_false] at early
  rcases early with rfl | rfl | rfl | rfl | rfl | rfl
  · exact not_reads rfl
  · exact not_reads rfl
  · exact not_reads rfl
  · exact not_reads rfl
  · exact not_reads rfl
  · intro reads
    have others : escapable.all (fun c => c.isAlpha == false) = true := by decide
    cases reads with
    | escaped known =>
      rcases known with listed | blank
      · rw [beq_iff_eq.mp (List.all_eq_true.mp others c listed)] at letter
        cases letter
      · rw [Scan.isBlank, decide_eq_true_iff] at blank
        rcases blank with rfl | rfl | rfl | rfl | rfl <;> cases letter

/-- A command with a name that an alternative is for is read by no alternative before that one. -/
theorem not_reads_earlier (command : Command line name behind) (known : String.ofList name ∈ kind.names) :
    ∀ earlier ∈ kind.earlier, ∀ other, ¬ Reads symbols first earlier line other := by
  have apart : ∀ kind : Alternative, ∀ name ∈ kind.names, ∀ earlier ∈ kind.earlier,
      earlier ∈ [.dimension, .comment, .scriptDigit, .number, .point, .escaped] ∨
        earlier.names ≠ [] ∧ name ∉ earlier.names := by
    intro kind
    cases kind <;> decide
  intro earlier listed other
  rcases apart kind _ known earlier listed with early | ⟨some, foreign⟩
  · exact not_reads_command command early
  · exact fun reads => foreign (reads.named command some)

end Others

end Lexeme

/-! ## Scanners and lexemes at a place -/

open Source (byteLength)

/-- Where the text ends that a scanner has found at a place. -/
def endOf (place : Nat) (found : Option (List Char × List Char)) : Option Nat :=
  found.map fun (taken, _) => place + byteLength taken

/-- At every place of every line the scanners find what their grammars match, and so do those that go over
the bytes of the line; a lexeme is read by the first alternative that matches, and so it is by the lexer that
goes over the bytes. -/
theorem scanners_match_grammars (symbols : SymbolTable) (first : Bool) (before behind : List Char) :
    (∀ line, FindsLongest Grammar.number line (Scan.number? line) ∧
        Bytes.numberEnd? (Bytes.utf8 (before ++ line)) (byteLength before) =
          endOf (byteLength before) (Scan.number? line)) ∧
      (∀ c cs, FindsOnly Grammar.dimension (c :: cs) (Scan.dimension? (c :: cs)) ∧
        Bytes.dimensionEnd? (Bytes.utf8 (before ++ c :: cs)) (byteLength before) =
          some (endOf (byteLength before) (Scan.dimension? (c :: cs)))) ∧
      (∀ line, FindsOnly Grammar.environmentName line (Scan.environmentName? line) ∧
        Bytes.environmentEnd? (Bytes.utf8 (before ++ line)) (byteLength before) =
          endOf (byteLength before) (Scan.environmentName? line)) ∧
      (∀ line, FindsOnly Grammar.operatorName line (Scan.operatorName? line) ∧
        Bytes.operatorEnd? (Bytes.utf8 (before ++ line)) (byteLength before) =
          endOf (byteLength before) (Scan.operatorName? line)) ∧
      ∀ c cs, (∀ r, Lexeme.read symbols first c cs = r ↔ Lexeme.FirstReads symbols first (c :: cs) r) ∧
        ∃ lexeme, Bytes.lexeme? symbols (before ++ c :: cs ++ behind) (byteLength before)
            (byteLength (before ++ c :: cs)) first = some lexeme ∧
          Bytes.Reaches (byteLength before) (Lexeme.read symbols first c cs) lexeme := by
  have here (line : List Char) : Bytes.At (Bytes.utf8 (before ++ line)) (byteLength before) line :=
    ⟨before, rfl, rfl⟩
  refine ⟨fun line => ⟨?_, ?_⟩, fun c cs => ⟨?_, ?_⟩, fun line => ⟨?_, ?_⟩, fun line => ⟨?_, ?_⟩,
    fun c cs => ⟨?_, ?_⟩⟩
  · exact Scan.number?_findsLongest line
  · exact Bytes.numberEnd?_eq (here line)
  · exact .of_iff fun taken rest => Scan.dimension?_eq_some_iff
  · exact Bytes.dimensionEnd?_eq (here (c :: cs))
  · exact .of_iff fun taken rest => Scan.environmentName?_eq_some_iff
  · exact Bytes.environmentEnd?_eq (here line)
  · exact .of_iff fun taken rest => Scan.operatorName?_eq_some_iff
  · exact Bytes.operatorEnd?_eq (here line)
  · exact fun r => Lexeme.read_eq_iff
  · exact Bytes.lexeme?_reads symbols first ⟨before, behind, rfl, rfl, rfl⟩

end FormulaMarkup

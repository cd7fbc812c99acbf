import FormulaMarkup.Proofs.Bytes.Scanning

/-!
Lexing by places. The lexer looks at the bytes of a source and keeps the place that it has reached;
tokens are slices of the source between two places. Every slice that it takes lies in the source and
ends between characters, every byte that it asks for is there, and it finds the tokens that reading
by characters finds. Main statement: `tokens?_eq`.
-/
namespace FormulaMarkup.Bytes

open Source (byteLength byteLength_append byteLength_cons byteLength_nil byteLength_pos sourceOf_cons
  sourceOf_nil tokensFrom)

/-! ## Lexemes -/

def token? (source : List Char) (start stop : Nat) : Option Token := do
  let text ← slice? source start stop
  return ⟨String.ofList text, ⟨start, stop⟩⟩

def tokenWithoutBlanks? (source : List Char) (start stop : Nat) : Option Token := do
  let text ← slice? source start stop
  return ⟨String.ofList (text.filter (! Scan.isBlank ·)), ⟨start, stop⟩⟩

/-- A token up to an end that has been looked for, without its blanks. -/
def tokenTo? (source : List Char) (place : Nat) : Option Nat → Option (Option (List Token × Nat))
  | some stop => do return some ([← tokenWithoutBlanks? source place stop], stop)
  | none => some none

/-- A text command with its argument, given the place behind its name and the one of the brace. -/
def text? (source : List Char) (bytes : List UInt8) (place behind opening : Nat) :
    Option (Option (List Token × Nat)) := do
  match (← drop? bytes (opening + 1)).findIdx? (onByte (· == '\x7d')) with
  | some length =>
    let closing := opening + 1 + length
    if opening + 1 < closing then
      let command ← token? source place behind
      return some ([command, ← token? source (opening + 1) closing], closing + 1)
    else return some ([], closing + 1)
  | none => return none

/-- A fraction whose first argument ends at a place: its tokens up to there, and the token of a
second argument if there is one. -/
def withSecond? (source : List Char) (bytes : List UInt8) (tokens : List Token) (place : Nat) :
    Option (List Token × Nat) := do
  let under := skipWhile bytes place Scan.isBlank
  if passes bytes under Lexeme.isShortArgument then
    return (tokens ++ [← token? source under (under + 1)], under + 1)
  else return (tokens, under)

/-- The lexeme of a command that takes more than its name, from the name on: its tokens and the
place behind it. -/
def argument? (source : List Char) (bytes : List UInt8) (name : String) (place behind : Nat) :
    Option (Option (List Token × Nat)) := do
  if name = "begin" ∨ name = "end" then tokenTo? source place (environmentEnd? bytes behind)
  else if name = "operatorname" then tokenTo? source place (operatorEnd? bytes behind)
  else if Lexeme.textCommands.contains name then
    let opening := skipWhile bytes behind Scan.isBlank
    if passes bytes opening (· == '\x7b') then text? source bytes place behind opening
    else return none
  else if Lexeme.shortFractions.contains name then
    let upper := skipWhile bytes behind Scan.isBlank
    if passes bytes upper Lexeme.isShortArgument then
      let command ← token? source place behind
      let first ← token? source upper (upper + 1)
      return some (← withSecond? source bytes [command, first] (upper + 1))
    else return none
  else return none

/-- The lexeme of a command with a name, given the place behind the name. -/
def namedCommand? (symbols : SymbolTable) (source : List Char) (bytes : List UInt8)
    (place behind : Nat) (first : Bool) : Option (List Token × Nat) := do
  let name ← slice? source (place + 1) behind
  match ← argument? source bytes (String.ofList name) place behind with
  | some lexeme => return lexeme
  | none =>
    let command ← slice? source place behind
    let symbol :=
      if first && "\\math".toList.isPrefixOf command then
        symbols.character? (String.ofList command)
      else none
    match symbol with
    | some c => return ([⟨String.singleton c, ⟨place, behind⟩⟩], behind)
    | none => return ([← token? source place behind], behind)

def command? (symbols : SymbolTable) (source : List Char) (place stop : Nat) (first : Bool) :
    Option (List Token × Nat) := do
  let bytes ← take? (utf8 source) stop
  match bytes[place + 1]? with
  | none => return ([← token? source place (place + 1)], place + 1)
  | some next =>
    if onByte (fun c => Lexeme.escapable.contains c || Scan.isBlank c) next then
      return ([← token? source place (place + 2)], place + 2)
    else
      let behind := skipWhile bytes (place + 1) Char.isAlpha
      if behind = place + 1 then return ([← token? source place (place + 1)], place + 1)
      else namedCommand? symbols source bytes place behind first

/-- The end of a length at a place with a given byte, which is looked for where one can start. -/
def lengthEnd? (bytes : List UInt8) (place : Nat) (head : UInt8) : Option (Option Nat) :=
  if onByte (· == '-') head || onByte Char.isDigit head then dimensionEnd? bytes place else some none

/-- The lexeme at a place with a given byte, where no length stands. -/
def markedLexeme? (symbols : SymbolTable) (source : List Char) (bytes : List UInt8) (place stop : Nat)
    (head : UInt8) (first : Bool) : Option (List Token × Nat) := do
  if onByte (· == '%') head then return ([], stop)
  else if (onByte (· == '_') head || onByte (· == '^') head) &&
      passes bytes (place + 1) Char.isDigit then
    let mark ← token? source place (place + 1)
    return ([mark, ← token? source (place + 1) (place + 2)], place + 2)
  else if onByte Char.isDigit head then
    let behind := (numberEnd? bytes place).getD (place + 1)
    return ([← token? source place behind], behind)
  else if onByte (· == '.') head then
    let behind := skipWhile bytes (place + 1) Char.isDigit
    return ([← token? source place behind], behind)
  else if onByte (· == '\\') head then command? symbols source place stop first
  else
    let behind := place + ((← slice? source place stop).head?.map Char.utf8Size).getD 1
    return ([← token? source place behind], behind)

/-- The lexeme at a place that is not blank: its tokens and the place behind it. -/
def lexeme? (symbols : SymbolTable) (source : List Char) (place stop : Nat) (first : Bool) :
    Option (List Token × Nat) := do
  let bytes ← take? (utf8 source) stop
  let head ← bytes[place]?
  match ← lengthEnd? bytes place head with
  | some behind => return ([← tokenWithoutBlanks? source place behind], behind)
  | none => markedLexeme? symbols source bytes place stop head first

/-! ## Lines -/

/-- The tokens of a line from a place on. Each turn goes on by a byte at least; the budget counts the
turns. -/
def lineTokens? (symbols : SymbolTable) (source : List Char) (stop : Nat) :
    Nat → Nat → Bool → Option (List Token)
  | 0, _, _ => none
  | budget + 1, place, first => do
    match ← slice? source place stop with
    | [] => return []
    | c :: _ =>
      if Scan.isBlank c then lineTokens? symbols source stop budget (place + 1) first
      else
        let (tokens, behind) ← lexeme? symbols source place stop first
        return tokens ++ (← lineTokens? symbols source stop budget behind false)

/-- The tokens of the lines from a place on, given where the lines end. -/
def linesTokens? (symbols : SymbolTable) (source : List Char) : Nat → List Nat → Option (List Token)
  | _, [] => some []
  | place, stop :: stops => do
    let tokens ← lineTokens? symbols source stop (source.length + 1) place true
    return tokens ++ (← linesTokens? symbols source (stop + 1) stops)

def tokens? (symbols : SymbolTable) (source : String) : Option (List Token) :=
  let bytes := utf8 source.toList
  linesTokens? symbols source.toList 0 (bytePlaces (· == '\n') 0 bytes ++ [bytes.length])

/-! ## Stretches of a source -/

/- The text of a source from a place up to another. -/
def Stretch (source : List Char) (place stop : Nat) (rest : List Char) : Prop :=
  ∃ before behind, source = before ++ rest ++ behind ∧ place = byteLength before ∧
    stop = byteLength (before ++ rest)

namespace Stretch

variable {source taken rest : List Char} {place stop : Nat}

theorem advance (here : Stretch source place stop (taken ++ rest)) :
    Stretch source (place + byteLength taken) stop rest := by
  obtain ⟨before, behind, rfl, rfl, rfl⟩ := here
  exists before ++ taken, behind
  constructor
  · simp only [List.append_assoc]
  · constructor
    · rw [byteLength_append]
    · rw [List.append_assoc]

theorem slice_eq (here : Stretch source place stop (taken ++ rest)) :
    slice? source place (place + byteLength taken) = some taken := by
  obtain ⟨before, behind, rfl, rfl, -⟩ := here
  have inside := slice?_append before taken (rest ++ behind)
  rwa [byteLength_append, List.append_assoc, ← List.append_assoc taken, ← List.append_assoc] at inside

theorem whole_eq (here : Stretch source place stop rest) : slice? source place stop = some rest := by
  obtain ⟨before, behind, rfl, rfl, rfl⟩ := here
  exact slice?_append before rest behind

theorem bytes_eq (here : Stretch source place stop rest) :
    ∃ bytes, take? (utf8 source) stop = some bytes ∧ At bytes place rest := by
  obtain ⟨before, behind, rfl, rfl, rfl⟩ := here
  exists utf8 (before ++ rest)
  constructor
  · rw [utf8_append, ← length_utf8, take?, List.length_append, if_pos (Nat.le_add_right _ _),
      List.take_left]
  · exact ⟨before, rfl, rfl⟩

theorem stop_eq (here : Stretch source place stop rest) : stop = place + byteLength rest := by
  obtain ⟨before, behind, rfl, rfl, rfl⟩ := here
  exact byteLength_append before rest

theorem token_eq (here : Stretch source place stop (taken ++ rest)) :
    token? source place (place + byteLength taken) =
      some ⟨String.ofList taken, ⟨place, place + byteLength taken⟩⟩ := by
  rw [token?, here.slice_eq]
  rfl

theorem tokenWithoutBlanks_eq (here : Stretch source place stop (taken ++ rest)) :
    tokenWithoutBlanks? source place (place + byteLength taken) =
      some ⟨String.ofList (taken.filter (! Scan.isBlank ·)), ⟨place, place + byteLength taken⟩⟩ := by
  rw [tokenWithoutBlanks?, here.slice_eq]
  rfl

end Stretch

/-! ## Lexemes at a place -/

/- The tokens of a reading at a place, and the place where the reading ends, or one behind blanks that
the reading leaves. -/
def Reaches (place : Nat) (r : Reading) (lexeme : List Token × Nat) : Prop :=
  ∃ blanks behind, r.rest = blanks ++ behind ∧ (∀ c ∈ blanks, Scan.isBlank c) ∧
    lexeme = (Source.tokensFrom place r.segments,
      place + byteLength (Segment.sourceOf r.segments ++ blanks))

theorem Reaches.of_blanks {place stop : Nat} {segments : List Segment} {tokens : List Token}
    {rest : List Char} (same : tokensFrom place segments = tokens)
    (ends : place + byteLength (Segment.sourceOf segments ++ rest.takeWhile Scan.isBlank) = stop) :
    Reaches place ⟨segments, rest⟩ (tokens, stop) := by
  subst same ends
  exact ⟨rest.takeWhile Scan.isBlank, rest.dropWhile Scan.isBlank,
    List.takeWhile_append_dropWhile.symm, Source.isBlank_of_takeWhile rest, rfl⟩

theorem Reaches.of_ends {place stop : Nat} {r : Reading} {tokens : List Token}
    (same : tokensFrom place r.segments = tokens)
    (ends : place + byteLength (Segment.sourceOf r.segments) = stop) :
    Reaches place r (tokens, stop) := by
  subst same ends
  refine ⟨[], r.rest, rfl, fun c none => absurd none List.not_mem_nil, ?_⟩
  rw [List.append_nil]

/- A single token, which reads as it is written. -/
theorem Reaches.token {place : Nat} {taken rest : List Char} :
    Reaches place ⟨[.token taken], rest⟩
      ([⟨String.ofList taken, ⟨place, place + byteLength taken⟩⟩], place + byteLength taken) := by
  apply Reaches.of_ends
  · rfl
  · rw [sourceOf_cons, sourceOf_nil, List.append_nil]
    rfl

/- A token that reads without its blanks. -/
theorem Reaches.withoutBlanks {place : Nat} {taken rest : List Char} :
    Reaches place ⟨[.withoutBlanks taken], rest⟩
      ([⟨String.ofList (taken.filter (! Scan.isBlank ·)), ⟨place, place + byteLength taken⟩⟩],
        place + byteLength taken) := by
  apply Reaches.of_ends
  · rfl
  · rw [sourceOf_cons, sourceOf_nil, List.append_nil]
    rfl

/- A rule of the lexer by places does what rules for readings do. -/
def Agrees (place : Nat) (reading : Option Reading) (result : Option (Option (List Token × Nat))) :
    Prop :=
  match reading with
  | some r => ∃ lexeme, result = some (some lexeme) ∧ Reaches place r lexeme
  | none => result = some none

theorem Agrees.of_reaches {place : Nat} {r : Reading} {lexeme : List Token × Nat}
    (reaches : Reaches place r lexeme) : Agrees place (some r) (some (some lexeme)) :=
  ⟨lexeme, rfl, reaches⟩

section Arguments

variable {source name behind : List Char} {bytes : List UInt8} {place stop : Nat}

/- A name that is followed by what a scanner takes is one token. -/
theorem tokenTo?_agrees (here : Stretch source place stop ('\\' :: name ++ behind))
    {scanned : Option (List Char × List Char)}
    (whole : ∀ {taken rest}, scanned = some (taken, rest) → taken ++ rest = behind) :
    Agrees place (scanned.map fun (taken, rest) => ⟨[.withoutBlanks ('\\' :: name ++ taken)], rest⟩)
      (tokenTo? source place
        (scanned.map fun (taken, _) => place + byteLength ('\\' :: name) + byteLength taken)) := by
  cases scanned with
  | none => rfl
  | some result =>
    obtain ⟨taken, rest⟩ := result
    rw [← whole rfl, ← List.append_assoc] at here
    have token := here.tokenWithoutBlanks_eq
    have reaches := @Reaches.withoutBlanks place ('\\' :: name ++ taken) rest
    rw [byteLength_append, ← Nat.add_assoc] at token reaches
    change Agrees place _ ((tokenWithoutBlanks? source place _).bind _)
    rw [token]
    exact Agrees.of_reaches reaches

/- The bytes up to a closing brace. -/
theorem closing_eq (after : At bytes place behind) :
    ∃ rest, drop? bytes place = some rest ∧ rest.findIdx? (onByte (· == '\x7d')) =
      if '\x7d' ∈ behind then some (byteLength (behind.takeWhile (· ≠ '\x7d'))) else none := by
  exists utf8 behind
  constructor
  · rw [drop?, if_pos after.within, after.drop_eq]
  · have same : (fun c : Char => ! (c == '\x7d')) = fun c => decide (c ≠ '\x7d') := by
      funext c
      by_cases brace : c = '\x7d' <;> simp [brace]
    rw [findIdx?_utf8 (ascii_eq (by decide)), same]
    simp

theorem split_closing {inner : List Char} (closed : '\x7d' ∈ inner) :
    ∃ content rest, inner = content ++ '\x7d' :: rest ∧ inner.takeWhile (· ≠ '\x7d') = content ∧
      inner.dropWhile (· ≠ '\x7d') = '\x7d' :: rest := by
  obtain ⟨content, rest, rfl, free⟩ := List.eq_append_cons_of_mem closed
  have plain : ∀ c ∈ content, decide (c ≠ '\x7d') = true := by
    intro c listed
    exact decide_eq_true fun same => free (same ▸ listed)
  exists content, rest
  constructor
  · rfl
  · constructor
    · rw [List.takeWhile_append_of_pos plain, List.takeWhile_cons_of_neg (by decide), List.append_nil]
    · rw [List.dropWhile_append_of_pos plain, List.dropWhile_cons_of_neg (by decide)]

/- What stands behind a text command, from the brace on. -/
theorem text_agrees {inner : List Char} (here : Stretch source place stop ('\\' :: name ++ behind))
    (command : Scan.command? ('\\' :: name ++ behind) = some (name, behind))
    (known : Lexeme.textCommands.contains (String.ofList name))
    (opened : behind.dropWhile Scan.isBlank = '\x7b' :: inner)
    (inside : At bytes (place + byteLength ('\\' :: name) + byteLength (behind.takeWhile Scan.isBlank) + 1)
      inner) :
    Agrees place (Lexeme.rawArgument? ('\\' :: name ++ behind))
      (text? source bytes place (place + byteLength ('\\' :: name))
        (place + byteLength ('\\' :: name) + byteLength (behind.takeWhile Scan.isBlank))) := by
  have opening : '\x7b'.utf8Size = 1 := rfl
  have closing : '\x7d'.utf8Size = 1 := rfl
  have braced := here
  rw [← List.takeWhile_append_dropWhile (p := Scan.isBlank) (l := behind), opened] at braced
  unfold Lexeme.rawArgument? text?
  rw [command]
  dsimp only
  rw [if_pos known, opened]
  generalize behind.takeWhile Scan.isBlank = gap at braced inside ⊢
  obtain ⟨rest, dropped, found⟩ := closing_eq inside
  rw [dropped]
  change Agrees place _ (match rest.findIdx? (onByte (· == '\x7d')) with
    | some length => _
    | none => _)
  rw [found]
  by_cases closed : '\x7d' ∈ inner
  · obtain ⟨content, more, rfl, taken, left⟩ := split_closing closed
    rw [if_pos closed, taken]
    simp only [taken, left]
    cases content with
    | nil =>
      simp only [List.isEmpty_nil, if_true, byteLength_nil, Nat.add_zero, Nat.lt_irrefl, if_false]
      apply Agrees.of_reaches
      apply Reaches.of_ends
      · rfl
      · simp only [Segment.gap, sourceOf_cons, sourceOf_nil, byteLength_append, byteLength_cons,
          byteLength_nil, opening, closing]
        omega
    | cons d ds =>
      have some := byteLength_pos (List.cons_ne_nil d ds)
      have further : Stretch source place stop
          (('\\' :: name ++ gap ++ ['\x7b']) ++ (d :: ds ++ '\x7d' :: more)) := by
        simpa using braced
      have start : place + byteLength ('\\' :: name ++ gap ++ ['\x7b']) =
          place + byteLength ('\\' :: name) + byteLength gap + 1 := by
        simp only [byteLength_append, byteLength_cons, byteLength_nil, opening]
        omega
      have argument := further.advance.token_eq
      rw [start] at argument
      simp only [List.isEmpty_cons, Bool.false_eq_true, if_false]
      rw [if_pos (by omega), here.token_eq, argument]
      apply Agrees.of_reaches
      apply Reaches.of_ends
      · simp only [tokensFrom, Segment.token, Segment.gap, byteLength_append gap, byteLength_cons '\x7b',
          byteLength_nil, opening, Nat.add_assoc, Nat.add_zero]
      · simp only [Segment.token, Segment.gap, sourceOf_cons, sourceOf_nil, byteLength_append,
          byteLength_cons, byteLength_nil, opening, closing]
        omega
  · have left : inner.dropWhile (· ≠ '\x7d') = [] := by
      rw [List.dropWhile_eq_nil_iff]
      intro c listed
      exact decide_eq_true fun same => closed (same ▸ listed)
    rw [if_neg closed]
    simp only [left]
    rfl

section Second

variable {taken : List Segment} {between : List Char}

/- A fraction has a second argument where a digit or a point stands behind its first one. -/
theorem withSecond?_two {under : Char} {rest : List Char}
    (here : Stretch source (place + byteLength (Segment.sourceOf taken)) stop between)
    (after : At bytes (place + byteLength (Segment.sourceOf taken)) between)
    (ends : between.dropWhile Scan.isBlank = under :: rest) (short : Lexeme.isShortArgument under) :
    ∃ lexeme, withSecond? source bytes (tokensFrom place taken)
        (place + byteLength (Segment.sourceOf taken)) = some lexeme ∧
      Reaches place ⟨taken ++ [.gap (between.takeWhile Scan.isBlank), .token [under]], rest⟩ lexeme := by
  have size := ascii_isShortArgument.size_eq short
  have passed := (after.skip ascii_isBlank).passes_eq ascii_isShortArgument
  rw [ends, List.head?_cons, Option.any_some, short] at passed
  rw [← List.takeWhile_append_dropWhile (p := Scan.isBlank) (l := between), ends] at here
  have last : Stretch source _ stop ([under] ++ rest) := here.advance
  have token := last.token_eq
  rw [byteLength_cons, byteLength_nil, size, ← after.skip_eq ascii_isBlank] at token
  unfold withSecond?
  dsimp only
  rw [passed, if_pos rfl, token]
  refine ⟨_, rfl, ?_⟩
  apply Reaches.of_ends
  · rw [Source.tokensFrom_append, after.skip_eq ascii_isBlank]
    simp only [tokensFrom, Segment.token, Segment.gap, byteLength_cons, byteLength_nil, size, Nat.add_zero]
  · rw [Source.sourceOf_append, after.skip_eq ascii_isBlank]
    simp only [Segment.token, Segment.gap, sourceOf_cons, sourceOf_nil, byteLength_append, byteLength_cons,
      byteLength_nil, size]
    omega

theorem withSecond?_one
    (after : At bytes (place + byteLength (Segment.sourceOf taken)) between)
    (ends : ¬ (between.dropWhile Scan.isBlank).head?.any Lexeme.isShortArgument) :
    ∃ lexeme, withSecond? source bytes (tokensFrom place taken)
        (place + byteLength (Segment.sourceOf taken)) = some lexeme ∧
      Reaches place ⟨taken, between⟩ lexeme := by
  have passed := (after.skip ascii_isBlank).passes_eq ascii_isShortArgument
  unfold withSecond?
  dsimp only
  rw [passed, if_neg ends, after.skip_eq ascii_isBlank]
  refine ⟨_, rfl, ?_⟩
  apply Reaches.of_blanks
  · rfl
  · rw [byteLength_append, Nat.add_assoc]

end Second

theorem raw_agrees (here : Stretch source place stop ('\\' :: name ++ behind))
    (after : At bytes (place + byteLength ('\\' :: name)) behind)
    (command : Scan.command? ('\\' :: name ++ behind) = some (name, behind))
    (known : Lexeme.textCommands.contains (String.ofList name)) :
    Agrees place (Lexeme.rawArgument? ('\\' :: name ++ behind))
      (let opening := skipWhile bytes (place + byteLength ('\\' :: name)) Scan.isBlank
      if passes bytes opening (· == '\x7b') then
        text? source bytes place (place + byteLength ('\\' :: name)) opening
      else some none) := by
  dsimp only
  obtain ⟨inner, opened, brace, inside⟩ | ⟨unopened, other⟩ := brace_cases after
  · rw [after.skip_eq ascii_isBlank] at inside brace ⊢
    rw [if_pos brace]
    exact text_agrees here command known opened inside
  · unfold Lexeme.rawArgument?
    rw [command, other, if_neg Bool.false_ne_true]
    dsimp only
    rw [if_pos known]
    split
    · rename_i opens
      exact absurd opens (unopened _)
    · rfl

theorem fraction_agrees (here : Stretch source place stop ('\\' :: name ++ behind))
    (after : At bytes (place + byteLength ('\\' :: name)) behind)
    (command : Scan.command? ('\\' :: name ++ behind) = some (name, behind))
    (known : Lexeme.shortFractions.contains (String.ofList name)) :
    Agrees place (Lexeme.shortFraction? ('\\' :: name ++ behind))
      (let upper := skipWhile bytes (place + byteLength ('\\' :: name)) Scan.isBlank
      if passes bytes upper Lexeme.isShortArgument then do
        let command ← token? source place (place + byteLength ('\\' :: name))
        let first ← token? source upper (upper + 1)
        return some (← withSecond? source bytes [command, first] (upper + 1))
      else some none) := by
  unfold Lexeme.shortFraction?
  rw [command]
  dsimp only
  rw [if_pos known]
  have passed := (after.skip ascii_isBlank).passes_eq ascii_isShortArgument
  have inside := after.skip ascii_isBlank
  rw [passed]
  rw [after.skip_eq ascii_isBlank] at inside ⊢
  have argued := here
  rw [← List.takeWhile_append_dropWhile (p := Scan.isBlank) (l := behind)] at argued
  generalize behind.takeWhile Scan.isBlank = gap at argued inside ⊢
  cases opened : behind.dropWhile Scan.isBlank with
  | nil => rfl
  | cons upper between =>
    rw [opened] at argued inside
    rw [List.head?_cons, Option.any_some]
    dsimp only
    by_cases short : Lexeme.isShortArgument upper
    · have size := ascii_isShortArgument.size_eq short
      let taken : List Segment := [.token ('\\' :: name), .gap gap, .token [upper]]
      have along : place + byteLength (Segment.sourceOf taken) =
          place + byteLength ('\\' :: name) + byteLength gap + 1 := by
        simp only [taken, Segment.token, Segment.gap, sourceOf_cons, sourceOf_nil, byteLength_append,
          byteLength_cons, byteLength_nil, size]
        omega
      have further : Stretch source place stop (('\\' :: name ++ gap) ++ ([upper] ++ between)) := by
        simpa using argued
      have argument := further.advance.token_eq
      have second := further.advance.advance
      have next := inside.next size
      simp only [byteLength_append _ gap, byteLength_cons upper, byteLength_nil, size, Nat.add_zero,
        ← Nat.add_assoc] at argument second
      have tokens : tokensFrom place taken =
          [⟨String.ofList ('\\' :: name), ⟨place, place + byteLength ('\\' :: name)⟩⟩,
            ⟨String.ofList [upper], ⟨place + byteLength ('\\' :: name) + byteLength gap,
              place + byteLength ('\\' :: name) + byteLength gap + 1⟩⟩] := by
        simp only [taken, tokensFrom, Segment.token, Segment.gap, byteLength_cons upper, byteLength_nil, size,
          Nat.add_zero]
      rw [if_pos short, if_pos short, here.token_eq, argument]
      change Agrees place _ ((withSecond? source bytes [_, _] _).bind _)
      rw [← tokens, ← along]
      rw [← along] at second next
      by_cases again : (between.dropWhile Scan.isBlank).head?.any Lexeme.isShortArgument
      · cases ends : between.dropWhile Scan.isBlank with
        | nil =>
          rw [ends] at again
          contradiction
        | cons under rest =>
          rw [ends, List.head?_cons, Option.any_some] at again
          obtain ⟨lexeme, found, reaches⟩ := withSecond?_two second next ends again
          dsimp only
          rw [found, if_pos again]
          exact Agrees.of_reaches reaches
      · obtain ⟨lexeme, found, reaches⟩ := withSecond?_one next again
        rw [found]
        cases ends : between.dropWhile Scan.isBlank with
        | nil => exact Agrees.of_reaches reaches
        | cons under rest =>
          rw [ends, List.head?_cons, Option.any_some] at again
          dsimp only
          rw [if_neg again]
          exact Agrees.of_reaches reaches
    · rw [if_neg short, if_neg short]
      rfl

/- What is known of the name rules out all lexemes but one. -/
theorem argument?_agrees (here : Stretch source place stop ('\\' :: name ++ behind))
    (after : At bytes (place + byteLength ('\\' :: name)) behind)
    (command : Scan.command? ('\\' :: name ++ behind) = some (name, behind)) :
    Agrees place
      ((Lexeme.environmentHeader? ('\\' :: name ++ behind)).or
        ((Lexeme.operatorName? ('\\' :: name ++ behind)).or
          ((Lexeme.rawArgument? ('\\' :: name ++ behind)).or
            (Lexeme.shortFraction? ('\\' :: name ++ behind)))))
      (argument? source bytes (String.ofList name) place (place + byteLength ('\\' :: name))) := by
  have environment : Lexeme.environmentHeader? ('\\' :: name ++ behind) =
      if String.ofList name = "begin" ∨ String.ofList name = "end" then
        (Scan.environmentName? behind).map fun (taken, rest) =>
          ⟨[.withoutBlanks ('\\' :: name ++ taken)], rest⟩
      else none := by
    rw [Lexeme.environmentHeader?, command]
  have operator : Lexeme.operatorName? ('\\' :: name ++ behind) =
      if String.ofList name = "operatorname" then
        (Scan.operatorName? behind).map fun (taken, rest) =>
          ⟨[.withoutBlanks ('\\' :: name ++ taken)], rest⟩
      else none := by
    rw [Lexeme.operatorName?, command]
  have no_text (other : ¬ Lexeme.textCommands.contains (String.ofList name)) :
      Lexeme.rawArgument? ('\\' :: name ++ behind) = none := by
    unfold Lexeme.rawArgument?
    rw [command]
    exact if_neg other
  have no_fraction (other : ¬ Lexeme.shortFractions.contains (String.ofList name)) :
      Lexeme.shortFraction? ('\\' :: name ++ behind) = none := by
    unfold Lexeme.shortFraction?
    rw [command]
    exact if_neg other
  unfold argument?
  rw [environment, operator]
  by_cases header : String.ofList name = "begin" ∨ String.ofList name = "end"
  · have apart : ∀ text ∈ ["begin", "end"], text ≠ "operatorname" ∧
        ¬ Lexeme.textCommands.contains text ∧ ¬ Lexeme.shortFractions.contains text := by decide
    obtain ⟨other, text, fraction⟩ := apart _ (by simpa using header)
    rw [if_pos header, if_pos header, if_neg other, no_text text, no_fraction fraction,
      environmentEnd?_eq after, Option.none_or, Option.none_or, Option.or_none]
    exact tokenTo?_agrees here Scan.append_of_environmentName?
  · rw [if_neg header, if_neg header, Option.none_or]
    by_cases named : String.ofList name = "operatorname"
    · have apart : ¬ Lexeme.textCommands.contains "operatorname" ∧
          ¬ Lexeme.shortFractions.contains "operatorname" := by decide
      rw [if_pos named, if_pos named, no_text (named ▸ apart.1), no_fraction (named ▸ apart.2),
        operatorEnd?_eq after, Option.none_or, Option.or_none]
      exact tokenTo?_agrees here Scan.append_of_braced?
    · rw [if_neg named, if_neg named, Option.none_or]
      by_cases text : Lexeme.textCommands.contains (String.ofList name)
      · have apart : ∀ text ∈ Lexeme.textCommands, ¬ Lexeme.shortFractions.contains text := by decide
        rw [if_pos text, no_fraction (apart _ (List.elem_iff.mp text)), Option.or_none]
        exact raw_agrees here after command text
      · rw [if_neg text, no_text text, Option.none_or]
        by_cases fraction : Lexeme.shortFractions.contains (String.ofList name)
        · rw [if_pos fraction]
          exact fraction_agrees here after command fraction
        · rw [if_neg fraction, no_fraction fraction]
          rfl

end Arguments

/-! ## The rules one by one -/

theorem findSome?_cons_eq {rule : List Char → Option Reading} {rules : List (List Char → Option Reading)}
    (line : List Char) :
    (rule :: rules).findSome? (fun rule => rule line) =
      (rule line).or (rules.findSome? fun rule => rule line) := by
  rw [List.findSome?_cons]
  cases rule line with
  | none => rfl
  | some r => rfl

section Rules

variable {symbols : SymbolTable} {source : List Char} {place stop : Nat} {first : Bool} {c : Char}
  {cs : List Char}

/- Behind a backslash the rules for numbers and marks do not apply. -/
theorem read_backslash :
    Lexeme.read symbols first '\\' cs =
      ((Lexeme.escaped? ('\\' :: cs)).or
        (((Lexeme.environmentHeader? ('\\' :: cs)).or ((Lexeme.operatorName? ('\\' :: cs)).or
          ((Lexeme.rawArgument? ('\\' :: cs)).or (Lexeme.shortFraction? ('\\' :: cs))))).or
            (Lexeme.command? symbols first ('\\' :: cs)))).getD ⟨[.token ['\\']], cs⟩ := by
  have mark : Lexeme.scriptDigit? ('\\' :: cs) = none := by
    cases cs with
    | nil => rfl
    | cons d ds =>
      have other : ¬ (('\\' = '_' ∨ '\\' = '^') ∧ d.isDigit) := fun both => absurd both.1 (by decide)
      unfold Lexeme.scriptDigit?
      dsimp only
      rw [if_neg other]
  have dimension : Lexeme.dimension? ('\\' :: cs) = none := rfl
  have comment : Lexeme.comment? ('\\' :: cs) = none := rfl
  have number : Lexeme.number? ('\\' :: cs) = none := rfl
  have point : Lexeme.point? ('\\' :: cs) = none := rfl
  unfold Lexeme.read Lexeme.rules
  simp only [findSome?_cons_eq, List.findSome?_nil, dimension, comment, mark, number, point,
    Option.none_or, Option.or_none, Option.or_assoc]

/- A backslash that neither escapes a character nor starts a command is a token. -/
theorem read_bare (escaped : Lexeme.escaped? ('\\' :: cs) = none)
    (command : Scan.command? ('\\' :: cs) = none) :
    Lexeme.read symbols first '\\' cs = ⟨[.token ['\\']], cs⟩ := by
  rw [read_backslash, escaped]
  simp only [Lexeme.environmentHeader?, Lexeme.operatorName?, Lexeme.rawArgument?,
    Lexeme.shortFraction?, Lexeme.command?, command, Option.none_or, Option.getD_none]

theorem namedCommand?_reads {bytes : List UInt8} {name behind : List Char}
    (here : Stretch source place stop ('\\' :: name ++ behind))
    (after : At bytes (place + byteLength ('\\' :: name)) behind)
    (escaped : Lexeme.escaped? ('\\' :: name ++ behind) = none)
    (command : Scan.command? ('\\' :: name ++ behind) = some (name, behind)) :
    ∃ lexeme, namedCommand? symbols source bytes place (place + byteLength ('\\' :: name)) first =
        some lexeme ∧ Reaches place (Lexeme.read symbols first '\\' (name ++ behind)) lexeme := by
  have inside : slice? source (place + 1) (place + byteLength ('\\' :: name)) = some name := by
    have split : Stretch source place stop (['\\'] ++ (name ++ behind)) := here
    have along : place + byteLength ['\\'] + byteLength name = place + byteLength ('\\' :: name) := by
      rw [Nat.add_assoc, ← byteLength_append]
      rfl
    have slice := split.advance.slice_eq
    rwa [along] at slice
  have agrees := argument?_agrees here after command
  unfold namedCommand?
  rw [inside]
  change ∃ lexeme, ((argument? source bytes (String.ofList name) place _).bind _) = some lexeme ∧ _
  rw [read_backslash, ← List.cons_append, escaped, Option.none_or]
  generalize (Lexeme.environmentHeader? ('\\' :: name ++ behind)).or _ = reading at agrees ⊢
  cases reading with
  | some r =>
    obtain ⟨lexeme, found, reaches⟩ := agrees
    rw [found]
    exact ⟨lexeme, rfl, reaches⟩
  | none =>
    have start : "\\math".toList.isPrefixOf ('\\' :: name) = "math".toList.isPrefixOf name := rfl
    rw [agrees]
    change ∃ lexeme, ((slice? source place _).bind _) = some lexeme ∧ _
    rw [here.slice_eq]
    unfold Lexeme.command?
    rw [command]
    dsimp only [Option.bind_some]
    rw [start]
    cases if first && "math".toList.isPrefixOf name then
        symbols.character? (String.ofList ('\\' :: name)) else none with
    | some c =>
      refine ⟨_, rfl, ?_⟩
      apply Reaches.of_ends
      · rfl
      · simp
    | none =>
      dsimp only
      rw [here.token_eq]
      exact ⟨_, rfl, Reaches.token⟩

theorem command?_reads (here : Stretch source place stop ('\\' :: cs)) :
    ∃ lexeme, command? symbols source place stop first = some lexeme ∧
      Reaches place (Lexeme.read symbols first '\\' cs) lexeme := by
  have size : '\\'.utf8Size = 1 := rfl
  obtain ⟨bytes, taken, start⟩ := here.bytes_eq
  have next := start.next size
  have alone : token? source place (place + 1) = some ⟨String.ofList ['\\'], ⟨place, place + 1⟩⟩ := by
    have split : Stretch source place stop (['\\'] ++ cs) := here
    exact split.token_eq
  have bare : Reaches place ⟨[.token ['\\']], cs⟩
      ([⟨String.ofList ['\\'], ⟨place, place + 1⟩⟩], place + 1) :=
    Reaches.token
  unfold command?
  rw [taken, alone]
  cases cs with
  | nil =>
    rw [read_bare rfl rfl]
    refine ⟨_, ?_, bare⟩
    change (match bytes[place + 1]? with
      | none => _
      | some next => _) = _
    rw [next.none_eq]
    rfl
  | cons d ds =>
    obtain ⟨head, found, same⟩ := next.head_eq
    change ∃ lexeme, (match bytes[place + 1]? with
      | none => _
      | some next => _) = some lexeme ∧ _
    rw [found]
    dsimp only
    rw [same _ ((ascii_contains (by decide)).or ascii_isBlank)]
    by_cases passed : Lexeme.escapable.contains d || Scan.isBlank d
    · have width := ((ascii_contains (by decide)).or ascii_isBlank).size_eq passed
      have escaped : Lexeme.escaped? ('\\' :: d :: ds) = some ⟨[.token ['\\', d]], ds⟩ := if_pos passed
      have pair : Stretch source place stop (['\\', d] ++ ds) := here
      have token := pair.token_eq
      have reaches := @Reaches.token place ['\\', d] ds
      simp only [byteLength_cons, byteLength_nil, size, width] at token reaches
      rw [read_backslash, escaped, if_pos passed, token]
      exact ⟨_, rfl, reaches⟩
    · have escaped : Lexeme.escaped? ('\\' :: d :: ds) = none := if_neg passed
      rw [if_neg passed]
      have letters := next.skip_eq ascii_isAlpha
      have behind := next.skip ascii_isAlpha
      have split : (d :: ds).takeWhile Char.isAlpha ++ (d :: ds).dropWhile Char.isAlpha = d :: ds :=
        List.takeWhile_append_dropWhile
      have command : Scan.command? ('\\' :: d :: ds) =
          if ((d :: ds).takeWhile Char.isAlpha).isEmpty then none
          else some ((d :: ds).takeWhile Char.isAlpha, (d :: ds).dropWhile Char.isAlpha) := rfl
      rw [letters] at behind ⊢
      generalize (d :: ds).takeWhile Char.isAlpha = name at split command behind ⊢
      generalize (d :: ds).dropWhile Char.isAlpha = rest at split command behind
      cases name with
      | nil =>
        rw [read_bare escaped command, byteLength_nil, if_pos (Nat.add_zero _)]
        exact ⟨_, rfl, bare⟩
      | cons l ls =>
        have some := byteLength_pos (List.cons_ne_nil l ls)
        rw [if_neg (by omega)]
        have along : place + 1 + byteLength (l :: ls) = place + byteLength ('\\' :: l :: ls) := by
          rw [byteLength_cons '\\', size, Nat.add_assoc]
        rw [along] at behind ⊢
        rw [← split] at here escaped command ⊢
        exact namedCommand?_reads here behind escaped command

/- Where no backslash stands, the rules for commands do not apply. -/
theorem read_plain (other : c ≠ '\\') :
    Lexeme.read symbols first c cs =
      ((Lexeme.dimension? (c :: cs)).or ((Lexeme.comment? (c :: cs)).or ((Lexeme.scriptDigit? (c :: cs)).or
        ((Lexeme.number? (c :: cs)).or (Lexeme.point? (c :: cs)))))).getD ⟨[.token [c]], cs⟩ := by
  have command : Scan.command? (c :: cs) = none := by
    unfold Scan.command?
    split
    · rename_i same
      exact absurd (List.cons.inj same).1 other
    · rfl
  have escaped : Lexeme.escaped? (c :: cs) = none := by
    unfold Lexeme.escaped?
    split
    · rename_i same
      exact absurd (List.cons.inj same).1 other
    · rfl
  unfold Lexeme.read Lexeme.rules
  simp only [findSome?_cons_eq, List.findSome?_nil, escaped, Lexeme.environmentHeader?,
    Lexeme.operatorName?, Lexeme.rawArgument?, Lexeme.shortFraction?, Lexeme.command?, command,
    Option.or_none]

theorem dimension_none (minus : c ≠ '-') (digit : c.isDigit = false) : Scan.dimension? (c :: cs) = none := by
  have number : Scan.number? (c :: cs) = none := by
    unfold Scan.number?
    rw [List.takeWhile_cons, digit]
    rfl
  unfold Scan.dimension?
  split
  · rename_i same
    exact absurd (List.cons.inj same).1 minus
  · rw [Scan.quantity?, number]

theorem lengthEnd?_eq {bytes : List UInt8} {head : UInt8} (start : At bytes place (c :: cs))
    (same : ∀ test, Ascii test false → onByte test head = test c) :
    lengthEnd? bytes place head =
      some ((Scan.dimension? (c :: cs)).map fun (taken, _) => place + byteLength taken) := by
  unfold lengthEnd?
  rw [same _ (ascii_eq (by decide)), same _ ascii_isDigit]
  split
  · exact dimensionEnd?_eq start
  · rename_i other
    rw [Bool.or_eq_true, not_or, Bool.not_eq_true, Bool.not_eq_true, beq_eq_false_iff_ne] at other
    rw [dimension_none other.1 other.2]
    rfl

theorem mark_size (mark : c = '_' ∨ c = '^') : c.utf8Size = 1 := by
  rcases mark with rfl | rfl <;> rfl

theorem mark_eq {bytes : List UInt8} (start : At bytes place (c :: cs)) :
    ((c == '_' || c == '^') && passes bytes (place + 1) Char.isDigit) =
      decide ((c = '_' ∨ c = '^') ∧ cs.head?.any Char.isDigit) := by
  by_cases mark : c = '_' ∨ c = '^'
  · rw [(start.next (mark_size mark)).passes_eq ascii_isDigit]
    simp [mark]
  · simp [mark]

theorem no_script (other : ¬ ((c = '_' ∨ c = '^') ∧ cs.head?.any Char.isDigit)) :
    Lexeme.scriptDigit? (c :: cs) = none := by
  cases cs with
  | nil => rfl
  | cons d ds => exact if_neg other

/- A script of one digit. -/
theorem script_reads {d : Char} (here : Stretch source place stop (c :: d :: cs)) (mark : c = '_' ∨ c = '^')
    (digit : d.isDigit) :
    ∃ lexeme, (do
        let mark ← token? source place (place + 1)
        return ([mark, ← token? source (place + 1) (place + 2)], place + 2)) = some lexeme ∧
      Reaches place (((Lexeme.scriptDigit? (c :: d :: cs)).or ((Lexeme.number? (c :: d :: cs)).or
        (Lexeme.point? (c :: d :: cs)))).getD ⟨[.token [c]], d :: cs⟩) lexeme := by
  have size := mark_size mark
  have width := ascii_isDigit.size_eq digit
  have first : Stretch source place stop ([c] ++ ([d] ++ cs)) := here
  have mark_token := first.token_eq
  have digit_token := first.advance.token_eq
  simp only [byteLength_cons, byteLength_nil, size, Nat.add_zero] at mark_token
  simp only [byteLength_cons, byteLength_nil, size, width, Nat.add_zero, Nat.add_assoc] at digit_token
  have script : Lexeme.scriptDigit? (c :: d :: cs) = some ⟨[.token [c], .token [d]], cs⟩ :=
    if_pos ⟨mark, digit⟩
  rw [mark_token, digit_token, script]
  refine ⟨_, rfl, ?_⟩
  apply Reaches.of_ends
  · simp [tokensFrom, Segment.token, size, width]
  · simp [Segment.token, size, width]

theorem no_number (other : ¬ c.isDigit) : Lexeme.number? (c :: cs) = none := by
  rw [Lexeme.number?, Scan.number?, List.takeWhile_cons, if_neg other]
  rfl

theorem number_reads {bytes : List UInt8} (here : Stretch source place stop (c :: cs))
    (start : At bytes place (c :: cs)) (digit : c.isDigit) :
    ∃ lexeme, (do
        let behind := (numberEnd? bytes place).getD (place + 1)
        return ([← token? source place behind], behind)) = some lexeme ∧
      Reaches place (((Lexeme.number? (c :: cs)).or (Lexeme.point? (c :: cs))).getD ⟨[.token [c]], cs⟩)
        lexeme := by
  rw [numberEnd?_eq start]
  cases number : Scan.number? (c :: cs) with
  | none =>
    unfold Scan.number? at number
    rw [List.takeWhile_cons, if_pos digit] at number
    dsimp only at number
    rw [List.isEmpty_cons, if_neg Bool.false_ne_true] at number
    split at number
    · split at number <;> contradiction
    · contradiction
  | some result =>
    obtain ⟨taken, rest⟩ := result
    rw [← Scan.append_of_number? number] at here
    have rule : Lexeme.number? (c :: cs) = some ⟨[.token taken], rest⟩ := by
      rw [Lexeme.number?, number]
      rfl
    rw [rule]
    change ∃ lexeme, ((token? source place (place + byteLength taken)).bind _) = some lexeme ∧ _
    rw [here.token_eq]
    exact ⟨_, rfl, Reaches.token⟩

theorem point_reads {bytes : List UInt8} (here : Stretch source place stop ('.' :: cs))
    (start : At bytes place ('.' :: cs)) :
    ∃ lexeme, (do
        let behind := skipWhile bytes (place + 1) Char.isDigit
        return ([← token? source place behind], behind)) = some lexeme ∧
      Reaches place ((Lexeme.point? ('.' :: cs)).getD ⟨[.token ['.']], cs⟩) lexeme := by
  have digits := (start.next rfl).skip_eq ascii_isDigit
  have size : '.'.utf8Size = 1 := rfl
  have along : place + 1 + byteLength (cs.takeWhile Char.isDigit) =
      place + byteLength ('.' :: cs.takeWhile Char.isDigit) := by
    rw [byteLength_cons, size, Nat.add_assoc]
  have split : Stretch source place stop
      (('.' :: cs.takeWhile Char.isDigit) ++ cs.dropWhile Char.isDigit) := by
    rwa [List.cons_append, List.takeWhile_append_dropWhile]
  dsimp only
  rw [digits, along, split.token_eq]
  exact ⟨_, rfl, Reaches.token⟩

theorem markedLexeme?_reads {bytes : List UInt8} {head : UInt8} (here : Stretch source place stop (c :: cs))
    (start : At bytes place (c :: cs)) (same : ∀ test, Ascii test false → onByte test head = test c)
    (dimension : Lexeme.dimension? (c :: cs) = none) :
    ∃ lexeme, markedLexeme? symbols source bytes place stop head first = some lexeme ∧
      Reaches place (Lexeme.read symbols first c cs) lexeme := by
  unfold markedLexeme?
  have is_digit := same Char.isDigit ascii_isDigit
  have is (d : Char) (low : d.toNat < 128) : onByte (· == d) head = (c == d) := same _ (ascii_eq low)
  rw [is '%' (by decide), is '_' (by decide), is '^' (by decide), is_digit, is '.' (by decide),
    is '\\' (by decide)]
  by_cases backslash : c = '\\'
  · subst backslash
    exact command?_reads here
  · rw [read_plain backslash, dimension, Option.none_or]
    by_cases percent : c = '%'
    · subst percent
      rw [if_pos (by decide)]
      refine ⟨_, rfl, ?_⟩
      apply Reaches.of_ends
      · rfl
      · change place + byteLength ('%' :: cs ++ []) = stop
        rw [here.stop_eq, List.append_nil]
    · have comment : Lexeme.comment? (c :: cs) = none := by
        unfold Lexeme.comment?
        split
        · rename_i note
          exact absurd (List.cons.inj note).1 percent
        · rfl
      rw [comment, Option.none_or, beq_eq_false_iff_ne.mpr percent, if_neg Bool.false_ne_true,
        mark_eq start]
      by_cases mark : (c = '_' ∨ c = '^') ∧ cs.head?.any Char.isDigit
      · rw [if_pos (decide_eq_true mark)]
        obtain ⟨is_mark, digit⟩ := mark
        cases cs with
        | nil => contradiction
        | cons d ds => exact script_reads here is_mark digit
      · rw [decide_eq_false mark, if_neg Bool.false_ne_true, no_script mark, Option.none_or]
        by_cases digit : c.isDigit
        · rw [if_pos digit]
          exact number_reads here start digit
        · rw [if_neg digit, no_number digit, Option.none_or]
          by_cases point : c = '.'
          · subst point
            exact point_reads here start
          · have single : Stretch source place stop ([c] ++ cs) := here
            have token := single.token_eq
            have reaches := @Reaches.token place [c] cs
            rw [byteLength_cons, byteLength_nil, Nat.add_zero] at token reaches
            have no_point : Lexeme.point? (c :: cs) = none := by
              unfold Lexeme.point?
              split
              · rename_i same
                exact absurd (List.cons.inj same).1 point
              · rfl
            rw [beq_eq_false_iff_ne.mpr point, if_neg Bool.false_ne_true,
              beq_eq_false_iff_ne.mpr backslash, if_neg Bool.false_ne_true, here.whole_eq, no_point]
            change ∃ lexeme, ((token? source place (place + c.utf8Size)).bind _) = some lexeme ∧ _
            rw [token]
            exact ⟨_, rfl, reaches⟩

theorem lexeme?_reads (symbols : SymbolTable) (first : Bool) (here : Stretch source place stop (c :: cs)) :
    ∃ lexeme, lexeme? symbols source place stop first = some lexeme ∧
      Reaches place (Lexeme.read symbols first c cs) lexeme := by
  obtain ⟨bytes, taken, start⟩ := here.bytes_eq
  obtain ⟨head, found, same⟩ := start.head_eq
  unfold lexeme?
  rw [taken]
  change ∃ lexeme, (bytes[place]?).bind _ = some lexeme ∧ _
  rw [found, Option.bind_some, lengthEnd?_eq start same]
  cases length : Scan.dimension? (c :: cs) with
  | none => exact markedLexeme?_reads here start same (by rw [Lexeme.dimension?, length]; rfl)
  | some result =>
    obtain ⟨taken, rest⟩ := result
    have first_rule : Lexeme.dimension? (c :: cs) = some ⟨[.withoutBlanks taken], rest⟩ := by
      rw [Lexeme.dimension?, length]
      rfl
    have read : Lexeme.read symbols first c cs = ⟨[.withoutBlanks taken], rest⟩ := by
      unfold Lexeme.read Lexeme.rules
      rw [findSome?_cons_eq, first_rule]
      rfl
    rw [← Scan.append_of_dimension? length] at here
    rw [read]
    change ∃ lexeme, ((tokenWithoutBlanks? source place _).bind _) = some lexeme ∧ _
    rw [here.tokenWithoutBlanks_eq]
    exact ⟨_, rfl, Reaches.withoutBlanks⟩

end Rules

/-! ## Lines at a place -/

theorem tokens_behind_blanks {symbols : SymbolTable} {first : Bool} {place : Nat} {blanks rest : List Char}
    (blank : ∀ c ∈ blanks, Scan.isBlank c) :
    tokensFrom place (Source.lineSegments symbols first (blanks ++ rest)) =
      tokensFrom (place + byteLength blanks) (Source.lineSegments symbols first rest) := by
  induction blanks generalizing place with
  | nil => rfl
  | cons c cs ih =>
    rw [List.cons_append, Source.lineSegments, if_pos (blank c (List.mem_cons_self ..))]
    change tokensFrom (place + byteLength [c]) _ = _
    rw [ih fun d listed => blank d (List.mem_cons_of_mem c listed), byteLength_cons, byteLength_cons,
      byteLength_nil, Nat.add_zero, Nat.add_assoc]

theorem lineTokens?_eq {symbols : SymbolTable} {source rest : List Char} {place stop budget : Nat}
    {first : Bool} (here : Stretch source place stop rest) (room : rest.length < budget) :
    lineTokens? symbols source stop budget place first =
      some (tokensFrom place (Source.lineSegments symbols first rest)) := by
  induction budget generalizing place rest first with
  | zero => contradiction
  | succ budget ih =>
    unfold lineTokens?
    rw [here.whole_eq]
    cases rest with
    | nil =>
      rw [Source.lineSegments]
      rfl
    | cons c cs =>
      have less : cs.length < budget := Nat.lt_of_succ_lt_succ room
      rw [Source.lineSegments]
      change (if Scan.isBlank c then _ else _) = _
      by_cases blank : Scan.isBlank c
      · have size := ascii_isBlank.size_eq blank
        have single : Stretch source place stop ([c] ++ cs) := here
        have further := single.advance
        rw [byteLength_cons, byteLength_nil, size] at further
        rw [if_pos blank, if_pos blank, ih further less]
        change _ = some (tokensFrom (place + byteLength [c]) _)
        rw [byteLength_cons, byteLength_nil, size]
      · obtain ⟨lexeme, found, blanks, behind, left, all, rfl⟩ := lexeme?_reads symbols first here
        obtain ⟨whole, shorter⟩ := Lexeme.of_read symbols first c cs
        rw [left, List.length_append] at shorter
        rw [left, ← List.append_assoc] at whole
        rw [← whole] at here
        have further : behind.length < budget := by
          rw [List.length_cons] at shorter
          omega
        rw [if_neg blank, if_neg blank, found]
        change (lineTokens? symbols source stop budget _ false).bind _ = _
        rw [ih here.advance further]
        dsimp only [Option.bind_some]
        rw [Source.tokensFrom_append, left, tokens_behind_blanks all, byteLength_append, Nat.add_assoc]
        rfl

/-! ## All lines of a source -/

/- The places where lines end, given where the first one starts; a byte stands between two lines. -/
def lineEnds (place : Nat) : List (List Char) → List Nat
  | [] => []
  | line :: lines => (place + byteLength line) :: lineEnds (place + byteLength line + 1) lines

/- The line feeds of a text, and its end, are the places where its lines end. -/
theorem lineEnds_eq (place : Nat) (text : List Char) :
    lineEnds place (text.splitOn '\n') =
      places (· == '\n') place text ++ [place + byteLength text] := by
  induction text generalizing place with
  | nil => rfl
  | cons c cs ih =>
    have rest := ih (place + c.utf8Size)
    rw [List.splitOn, List.splitOnP_cons_eq_if_modifyHead, ← List.splitOn, places]
    by_cases feed : c = '\n'
    · subst feed
      have size : '\n'.utf8Size = 1 := rfl
      rw [size] at rest
      rw [if_pos (beq_self_eq_true _), if_pos (beq_self_eq_true _), lineEnds, byteLength_nil, Nat.add_zero,
        byteLength_cons, size, rest, List.cons_append, Nat.add_assoc]
    · obtain ⟨line, lines, split⟩ := List.exists_cons_of_ne_nil (List.splitOnP_ne_nil (· == '\n') cs)
      rw [← List.splitOn] at split
      rw [split, lineEnds] at rest
      rw [if_neg (by simpa using feed), if_neg (by simpa using feed), split, List.modifyHead_cons, lineEnds,
        byteLength_cons, byteLength_cons, ← Nat.add_assoc, ← Nat.add_assoc, rest]

/- Lines that end a source, one behind the other. -/
theorem linesTokens?_eq {symbols : SymbolTable} {source before : List Char} {lines : List (List Char)}
    (whole : source = before ++ ['\n'].intercalate lines) :
    linesTokens? symbols source (byteLength before) (lineEnds (byteLength before) lines) =
      some (tokensFrom (byteLength before)
        ([Segment.gap ['\n']].intercalate (lines.map (Source.lineSegments symbols true)))) := by
  induction lines generalizing before with
  | nil => rfl
  | cons line lines ih =>
    obtain ⟨behind, split⟩ : ∃ behind, ['\n'].intercalate (line :: lines) = line ++ behind := by
      cases lines with
      | nil => exact ⟨[], by simp⟩
      | cons next more => exact ⟨['\n'] ++ ['\n'].intercalate (next :: more), by simp⟩
    have here : Stretch source (byteLength before) (byteLength before + byteLength line) line := by
      exists before, behind
      rw [whole, split, byteLength_append]
      exact ⟨(List.append_assoc ..).symm, rfl, rfl⟩
    have room : line.length < source.length + 1 := by
      rw [whole, split, List.length_append, List.length_append]
      omega
    rw [lineEnds, linesTokens?, lineTokens?_eq here room]
    change (linesTokens? symbols source _ _).bind _ = _
    cases lines with
    | nil =>
      rw [List.map_singleton, List.intercalate_singleton]
      simp [lineEnds, linesTokens?]
    | cons next more =>
      have further : source = (before ++ line ++ ['\n']) ++ ['\n'].intercalate (next :: more) := by
        rw [whole]
        simp
      have size : '\n'.utf8Size = 1 := rfl
      have along : byteLength (before ++ line ++ ['\n']) = byteLength before + byteLength line + 1 := by
        rw [byteLength_append, byteLength_append, byteLength_cons, byteLength_nil, size]
      have joined : [Segment.gap ['\n']].intercalate
          ((line :: next :: more).map (Source.lineSegments symbols true)) =
          Source.lineSegments symbols true line ++ Segment.gap ['\n'] ::
            [Segment.gap ['\n']].intercalate ((next :: more).map (Source.lineSegments symbols true)) := by
        simp
      have rest := ih further
      rw [along] at rest
      rw [rest, joined, Source.tokensFrom_append, Source.sourceOf_lineSegments, tokensFrom]
      rfl

theorem tokens?_eq (symbols : SymbolTable) (source : String) :
    tokens? symbols source = some (Source.tokens symbols source) := by
  unfold tokens?
  dsimp only
  have ends := lineEnds_eq 0 source.toList
  rw [Nat.zero_add, ← length_utf8, ← bytePlaces_utf8 (ascii_eq (by decide))] at ends
  rw [← ends]
  have whole : source.toList = [] ++ ['\n'].intercalate (source.toList.splitOn '\n') :=
    (List.intercalate_splitOn '\n').symm
  exact linesTokens?_eq whole

end FormulaMarkup.Bytes

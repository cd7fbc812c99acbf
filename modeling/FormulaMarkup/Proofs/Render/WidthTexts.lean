import FormulaMarkup.Converter
import FormulaMarkup.Proofs.Parsing.NodeArguments
import FormulaMarkup.Proofs.Source.OrdinaryTexts

/-!
Widths as they are written. The lexer takes a width apart into lengths, numbers, letters and signs, and the
parser puts the texts of these tokens together again; what gets lost on the way are the blanks and nothing
else. Main statement: a space has the width that is written, and so has the bar of a fraction.
-/
namespace FormulaMarkup

open Wait
open Source (OrdinaryChar Spells printed textsFrom)

/-! ## Texts -/

/-- A text without its blanks. -/
def packed (text : String) : String := String.ofList (printed text.toList)

/-- A text of which all words are leaves. -/
def Inert (text : String) : Prop := ∀ c ∈ text.toList, c ∉ "\\%_^\x7b\x7d']".toList

/-- A text of letters, digits, points, signs and blanks, not all of which are blanks. -/
structure IsWidth (text : String) : Prop where
  chars : ∀ c ∈ text.toList, c.isAlphanum ∨ c ∈ ['.', '+', '-'] ∨ Scan.isBlank c
  visible : ∃ c ∈ text.toList, Scan.isBlank c = false

instance (text : String) : Decidable (Inert text) :=
  List.decidableBAll (fun c => c ∉ "\\%_^\x7b\x7d']".toList) text.toList

theorem Inert.ordinary {text : String} (inert : Inert text) : ∀ c ∈ text.toList, OrdinaryChar c := by
  have split : "\\%_^\x7b\x7d']".toList = "\\%_^\x7b\x7d".toList ++ "']".toList := by decide
  intro c mem special
  apply inert c mem
  rw [split]
  exact List.mem_append_left _ special

theorem IsWidth.inert {text : String} (isWidth : IsWidth text) : Inert text := by
  intro c mem special
  have other : "\\%_^\x7b\x7d']".toList.all fun c =>
      decide (¬ (c.isAlphanum ∨ c ∈ ['.', '+', '-'] ∨ Scan.isBlank c)) := by
    decide
  exact of_decide_eq_true (List.all_eq_true.mp other c special) (isWidth.chars c mem)

theorem IsWidth.packed_ne {text : String} (isWidth : IsWidth text) : packed text ≠ "" := by
  obtain ⟨c, mem, visible⟩ := isWidth.visible
  have held : c ∈ (packed text).toList := by
    rw [packed, String.toList_ofList]
    exact List.mem_filter.mpr ⟨mem, by simp [visible]⟩
  rintro empty
  rw [empty] at held
  cases held

namespace Source.Spells

variable {text : String} {words : List String}

theorem join (spells : Spells text.toList words) : String.join words = packed text := by
  rw [← String.toList_inj, String.toList_join, spells.joined, packed, String.toList_ofList]

/-- The characters of the words are those of the text. -/
theorem char_mem (spells : Spells text.toList words) {word : String} (mem : word ∈ words) {c : Char}
    (here : c ∈ word.toList) : c ∈ text.toList := by
  have held : c ∈ printed text.toList := by
    rw [← spells.joined]
    exact List.mem_flatMap.mpr ⟨word, mem, here⟩
  exact (List.mem_filter.mp held).1

theorem leaves (spells : Spells text.toList words) (inert : Inert text) :
    ∀ word ∈ words, Reader.IsLeafWord word := by
  have among : "\\\x7b\x7d_^']".toList.all (· ∈ "\\%_^\x7b\x7d']".toList) = true := by decide
  intro word mem
  apply Reader.isLeafWord_of_plain
  rw [startsSpecial, ← Bool.not_eq_true, Option.any_eq_true]
  rintro ⟨c, first, special⟩
  have here : c ∈ word.toList := List.mem_of_mem_head? first
  exact inert c (spells.char_mem mem here)
    (of_decide_eq_true (List.all_eq_true.mp among c (List.contains_iff_mem.mp special)))

/-- No word is a closing brace. -/
theorem brace_notMem (spells : Spells text.toList words) (ordinary : ∀ c ∈ text.toList, OrdinaryChar c) :
    Word.closeBrace ∉ words := by
  intro mem
  have here : '\x7d' ∈ Word.closeBrace.toList := by decide
  exact ordinary _ (spells.char_mem mem here) (by decide)

end Source.Spells

namespace Reader

variable {symbols : SymbolTable} {terminator : Option String} {text : String} {words : List String}
  {c : Cursor} {rest : List Token} {stack : List Node} {span : Span}

/-! ## Arguments -/

/-- A text in braces, as one node. -/
def leafGroup (words : List String) : Node := .braces (words.map Node.leaf)

theorem flatText_leafGroup (words : List String) : (leafGroup words).flatText = String.join words := by
  have tokens : (words.map Node.leaf).map Node.token = words := by simp [Node.leaf, Function.comp_def]
  have braces : (leafGroup words).is Word.braces = true := by
    rw [leafGroup]
    rfl
  rw [Node.flatText, if_pos braces, Node.tokensOf]
  exact congrArg String.join tokens

theorem oneNode_leafGroup (spells : Spells text.toList words) (inert : Inert text) :
    OneNode symbols (inBraces words) (leafGroup words) :=
  (advances_leaves (spells.leaves inert)).oneNode

theorem gives_leafGroup (spells : Spells text.toList words) (inert : Inert text) (known : Closing terminator)
    (before : Before c (inBraces words) rest) :
    Gives (argument (unbudgetedNested symbols) terminator) c (leafGroup words) rest :=
  (oneNode_leafGroup spells inert).argument known rfl before

/-! ## Spaces -/

/-- A space of some width. -/
def spaceNode (command width : String) : Node := (Node.leaf command).setAttribute "width" width

theorem shape_space : ∀ command ∈ Shape.spaces, Shape.of? command = some .space ∧
    command ≠ "\\middle" ∧ command ∉ [Word.closeBrace, "]", "\\of", "\\right"] ∧
    Word.begins Word.environmentEnd command = false := by
  decide +kernel

theorem gives_space {command : String} (spells : Spells text.toList words) (isWidth : IsWidth text)
    (known : Closing terminator) (before : Before c (inBraces words) rest) :
    Gives (space (unbudgetedNested symbols) terminator command) c (spaceNode command (packed text)) rest := by
  have some' : (packed text).isEmpty = false := by simpa using isWidth.packed_ne
  unfold space
  refine .bind (gives_leafGroup spells isWidth.inert known before) fun d left free => ?_
  rw [flatText_leafGroup, spells.join, if_neg (by simp [some'])]
  exact .pure left free

theorem oneNode_space {command : String} (spacing : command ∈ Shape.spaces) (spells : Spells text.toList words)
    (isWidth : IsWidth text) :
    OneNode symbols (command :: inBraces words) (spaceNode command (packed text)) := by
  obtain ⟨shape, middle, ends, header⟩ := shape_space command spacing
  refine oneNode_of_token (fun known => known.ne_of ends header) ?_
  rintro terminator stack token c rest known rfl before
  rw [token_shape shape middle]
  unfold Reader.command shape?
  rw [shape]
  exact gives_push (gives_space spells isWidth known before)

/-! ## Fractions -/

/-- What a text for a delimiter stands for. -/
def fenceOf (text : String) : Option String := if text.isEmpty || text == "." then none else some text

theorem gives_bracedText (closed : Word.closeBrace ∉ words)
    (before : Before c (words ++ [Word.closeBrace]) rest) :
    Gives bracedText c (String.join words) rest := by
  obtain ⟨tokens, texts, left⟩ := before.words
  obtain ⟨front, back, rfl, rfl, last⟩ := List.map_eq_append_iff.mp texts
  obtain ⟨brace, rfl, text⟩ := List.map_eq_singleton_iff.mp last
  have inner : c.tokens.takeWhile (·.text != Word.closeBrace) = front := by
    rw [left, List.append_assoc, List.takeWhile_append_of_pos]
    · simp [text]
    · intro token mem
      rw [bne_iff_ne]
      rintro same
      exact closed (same ▸ List.mem_map_of_mem mem)
  obtain ⟨after, given, behind, same⟩ : ∃ after, bracedText c = .ok (String.join (front.map (·.text)), after) ∧
      after.tokens = c.tokens.drop (front.length + 1) ∧ after.pending = c.pending := by
    rw [bracedText, inner]
    exact ⟨_, rfl, rfl, rfl⟩
  refine ⟨after, given, ?_, same.trans before.free⟩
  rw [behind, left]
  simp

theorem gives_fence? (closed : Word.closeBrace ∉ words) (known : Closing terminator)
    (before : Before c (inBraces words) rest) :
    Gives (fence? (unbudgetedNested symbols) terminator) c (fenceOf (String.join words)) rest := by
  obtain ⟨brace, tail, left, text, behind⟩ := Before.next before
  unfold fence?
  refine .step (rawArgument_cons before.free left (text ▸ known.ne_openBrace)) ?_
  rw [text, if_pos (beq_self_eq_true _)]
  refine (gives_bracedText closed behind).bind fun d left free => ?_
  exact .pure left free

/-- A fraction with a bar of some thickness. -/
def thickFraction (opening closing : Option String) (thickness : String) (parts : List Node) : Node :=
  { token := "\\genfrac"
    children := some parts
    delimiter := if opening.isSome || closing.isSome then some (.pair opening closing) else none
    attributes := [("linethickness", thickness)] }

/-- A fraction in a style that is given by its number. -/
def inStyle (style : String) (fraction : Node) : Node :=
  match styleCommand? style with
  | some switch => .braces [.leaf switch, fraction]
  | none => fraction

/-- What follows the thickness of a general fraction. -/
def styleAndParts (nested : Nested) (terminator : Option String) (opening closing : Option String)
    (thickness : String) : Reader Node := do
  let style := (← argument nested terminator).flatText
  let parts ← arguments nested terminator 2
  return inStyle style (thickFraction opening closing thickness parts)

/-- Behind its delimiters a general fraction takes a width as its thickness, and goes on behind it. -/
theorem generalFraction_thick (spells : Spells text.toList words) (isWidth : IsWidth text)
    (known : Closing terminator) {opening closing : Option String} {d e : Cursor}
    (first : fence? (unbudgetedNested symbols) terminator c = .ok (opening, d))
    (second : fence? (unbudgetedNested symbols) terminator d = .ok (closing, e))
    (before : Before e (inBraces words) rest) :
    ∃ after, after.tokens = rest ∧ after.pending = none ∧
      generalFraction (unbudgetedNested symbols) terminator c =
        styleAndParts (unbudgetedNested symbols) terminator opening closing (packed text) after := by
  obtain ⟨after, given, left, free⟩ := gives_leafGroup spells isWidth.inert known before
  refine ⟨after, left, free, ?_⟩
  have some' : (packed text).isEmpty = false := by simpa using isWidth.packed_ne
  unfold generalFraction
  rw [bind_ok first, bind_ok second, bind_ok given, flatText_leafGroup, spells.join]
  simp only [some', Bool.false_eq_true, if_false]
  rfl

theorem token_generalFraction {nested : Nested} :
    Reader.token symbols nested terminator ⟨"\\genfrac", span⟩ stack =
      generalFraction nested terminator >>= fun node => pure ⟨node :: stack, false⟩ := by
  have shape : Shape.of? "\\genfrac" = some .generalFraction := by decide +kernel
  rw [token_shape shape (by decide : "\\genfrac" ≠ "\\middle")]
  unfold Reader.command shape?
  rw [shape]

/-- The words of a text for a delimiter. -/
structure FenceWords (text : String) (words : List String) : Prop where
  spells : Spells text.toList words
  ordinary : ∀ c ∈ text.toList, OrdinaryChar c

/-- The words of a text that is read as leaves. -/
structure LeafWords (text : String) (words : List String) : Prop where
  spells : Spells text.toList words
  inert : Inert text

theorem FenceWords.gives (fence : FenceWords text words) (known : Closing terminator)
    (before : Before c (inBraces words) rest) :
    Gives (fence? (unbudgetedNested symbols) terminator) c (fenceOf (packed text)) rest := by
  rw [← fence.spells.join]
  exact gives_fence? (fence.spells.brace_notMem fence.ordinary) known before

/-- What is read of the first words, and then of the others. -/
theorem Gives.andThen {α β : Type} {r : Reader α} {f : α → Reader β} {value : α} {result : β}
    {front back : List String} (before : Before c (front ++ back) rest)
    (first : ∀ {mid}, Before c front mid → Gives r c value mid)
    (behind : ∀ {d}, Before d back rest → Gives (f value) d result rest) : Gives (r >>= f) c result rest := by
  obtain ⟨tokens, texts, here⟩ := before.split
  exact (first here).bind fun d left free => behind ⟨free, tokens, texts, left⟩

theorem gives_styleAndParts {opening closing : Option String} {thickness style upper lower : String}
    {s a b : List String} (styleWords : LeafWords style s) (upperWords : LeafWords upper a)
    (lowerWords : LeafWords lower b) (known : Closing terminator)
    (before : Before c (inBraces s ++ (inBraces a ++ inBraces b)) rest) :
    Gives (styleAndParts (unbudgetedNested symbols) terminator opening closing thickness) c
      (inStyle (packed style) (thickFraction opening closing thickness [leafGroup a, leafGroup b])) rest := by
  unfold styleAndParts
  refine .andThen before (fun here => gives_leafGroup styleWords.spells styleWords.inert known here) ?_
  intro d behind
  have each : OneEach symbols (inBraces a ++ (inBraces b ++ [])) [leafGroup a, leafGroup b] :=
    .cons (oneNode_leafGroup upperWords.spells upperWords.inert)
      (.cons (oneNode_leafGroup lowerWords.spells lowerWords.inert) .nil)
  rw [List.append_nil] at each
  have apart : ∀ node ∈ [leafGroup a, leafGroup b], (node.isLeaf && some node.token == terminator) = false :=
    List.forall_mem_cons.mpr ⟨rfl, List.forall_mem_singleton.mpr rfl⟩
  refine (each.arguments (List.cons_ne_nil _ _) apart known behind).bind fun e left free => ?_
  rw [flatText_leafGroup, styleWords.spells.join]
  exact .pure left free

theorem oneNode_fraction {left right style upper lower : String} {l r s a b : List String}
    (leftWords : FenceWords left l) (rightWords : FenceWords right r) (spells : Spells text.toList words)
    (isWidth : IsWidth text) (styleWords : LeafWords style s) (upperWords : LeafWords upper a)
    (lowerWords : LeafWords lower b) :
    OneNode symbols
      ("\\genfrac" ::
        (inBraces l ++ (inBraces r ++ (inBraces words ++ (inBraces s ++ (inBraces a ++ inBraces b))))))
      (inStyle (packed style) (thickFraction (fenceOf (packed left)) (fenceOf (packed right)) (packed text)
        [leafGroup a, leafGroup b])) := by
  refine oneNode_of_token (fun known => known.ne_of (by decide) (by decide)) ?_
  rintro terminator stack ⟨_, span⟩ c rest known rfl before
  rw [token_generalFraction]
  obtain ⟨tokens, texts, here⟩ := before.split
  obtain ⟨d, first, done, free⟩ := @FenceWords.gives symbols _ _ _ _ _ leftWords known here
  obtain ⟨tokens', texts', here'⟩ := Before.split ⟨free, tokens, texts, done⟩
  obtain ⟨e, second, done', free'⟩ := @FenceWords.gives symbols _ _ _ _ _ rightWords known here'
  obtain ⟨tokens'', texts'', third⟩ := Before.split ⟨free', tokens', texts', done'⟩
  obtain ⟨after, done'', free'', same⟩ := generalFraction_thick spells isWidth known first second third
  have behind : Before after _ rest := ⟨free'', tokens'', texts'', done''⟩
  exact gives_push (.of_eq same (gives_styleAndParts styleWords upperWords lowerWords known behind))

end Reader

/-! ## Drawing -/

namespace Draw

theorem drawing_styled {ctx : Context} {node : Node} {inner : Inner} {style : Style}
    (unswitched : Style.switches.lookup node.token = none) (styled : Style.of? node.token = some style) :
    drawing ctx node inner = .elements (command ctx node style inner) := by
  unfold drawing
  rw [unswitched, styled]

theorem style_space : ∀ command ∈ Shape.spaces, Style.switches.lookup command = none ∧
    Style.of? command = some ⟨"mspace", []⟩ ∧ Style.accents.lookup command = none := by
  decide +kernel

/-- A space is one element of its width. -/
theorem node_space (ctx : Context) {command : String} (spacing : command ∈ Shape.spaces) (width : String) :
    Draw.node ctx (Reader.spaceNode command width) = .elements [⟨"mspace", [("width", width)], "", []⟩] := by
  obtain ⟨unswitched, styled, unaccented⟩ := style_space command spacing
  unfold Reader.spaceNode Node.leaf Node.setAttribute Draw.node
  rw [drawing_styled unswitched styled]
  simp only [Shape.spaces, List.mem_cons, List.not_mem_nil, or_false] at spacing
  rcases spacing with rfl | rfl | rfl | rfl | rfl | rfl
  all_goals
    simp +decide [command, inScope, content, scope?, body, labelled, filled, accented, shell, fences?, isModulus,
      Node.is, unaccented, tag, fence, nothing]
    rfl

/-- A fraction with a bar of some thickness, between its delimiters. -/
theorem node_thickFraction (ctx : Context) (opening closing : Option String) (thickness : String)
    (parts : List Node) :
    let bar : Element := ⟨"mfrac", [("linethickness", thickness)], "", []⟩
    let fence := fence ctx.symbols (some (fenceSize ctx.inTextStyle "\\genfrac"))
    Draw.node ctx (Reader.thickFraction opening closing thickness parts) =
      .elements (fence opening ++ [bar.appendChildren (group (ctx.within bar) [] parts)] ++ fence closing) := by
  intro bar fence
  have unswitched : Style.switches.lookup "\\genfrac" = none := by decide +kernel
  have styled : Style.of? "\\genfrac" = some ⟨"mfrac", []⟩ := by decide +kernel
  have unaccented : Style.accents.lookup "\\genfrac" = none := by decide +kernel
  unfold Reader.thickFraction Draw.node
  rw [drawing_styled unswitched styled]
  cases opening <;> cases closing
  all_goals
    simp +decide [command, inScope, content, scope?, body, labelled, filled, accented, shell, fences?, isModulus,
      Node.is, unaccented, tag, Draw.fence, fence]
    rfl

end Draw

/-! ## Sources -/

/-- A text in braces. -/
def braced (text : String) : String := "\x7b" ++ text ++ "\x7d"

section Sources

variable {symbols : SymbolTable} {text : String} {words : List String} {node : Node}

theorem textsFrom_braced (symbols : SymbolTable) (first : Bool) (ordinary : ∀ c ∈ text.toList, OrdinaryChar c)
    (tail : List Char) : ∃ words, Spells text.toList words ∧
      textsFrom symbols first ((braced text).toList ++ tail) = inBraces words ++ textsFrom symbols false tail := by
  obtain ⟨words, spells, texts⟩ := Source.textsFrom_inBraces symbols ordinary first tail
  have split : (braced text).toList ++ tail = '\x7b' :: (text.toList ++ '\x7d' :: tail) := by simp [braced]
  refine ⟨words, spells, ?_⟩
  rw [split, texts, inBraces, List.cons_append, List.append_assoc]
  rfl

theorem alone_command : ∀ command ∈ "\\genfrac" :: Shape.spaces,
    command.toList.head? = some '\\' ∧ Source.Alone command.toList.tail := by
  decide +kernel

theorem textsFrom_command {command : String}
    (alone : command.toList.head? = some '\\' ∧ Source.Alone command.toList.tail) (text : String)
    (tail : List Char) : textsFrom symbols true (command.toList ++ ((braced text).toList ++ tail)) =
      command :: textsFrom symbols false ((braced text).toList ++ tail) := by
  obtain ⟨slash, alone⟩ := alone
  obtain ⟨name, chars⟩ := List.head?_eq_some_iff.mp slash
  rw [chars, List.tail_cons] at alone
  have split : (braced text).toList ++ tail = '\x7b' :: (text.toList ++ '\x7d' :: tail) := by simp [braced]
  rw [split, chars, List.cons_append, Source.textsFrom_command alone, ← chars, String.ofList_toList]

/-- A source whose words are one node. -/
theorem parse_oneNode {source : String} (one : Reader.OneNode symbols words node) (some' : words ≠ [])
    (texts : textsFrom symbols true source.toList = words) : Formula.parse symbols source = .ok [node] := by
  have same : (Source.tokens symbols source).map (·.text) = words := (Source.texts_eq source).trans texts
  rw [Formula.parse, one.parsed some' same]

theorem textsFrom_nil (first : Bool) : textsFrom symbols first [] = [] := by
  have parts : Source.FirstLine [] [] [] := ⟨rfl, List.not_mem_nil, nofun⟩
  rw [Source.textsFrom_firstLine parts, Source.lineSegments_nil, List.tail_nil, Source.segments_nil]
  rfl

theorem source_node {source : String} {elements : List Element}
    (parsed : Formula.parse symbols source = .ok [node])
    (drawn : ∀ ctx : Context, Draw.node ctx node = .elements elements) :
    Draw.source symbols source = .ok elements := by
  rw [Draw.source, parsed]
  simp [Draw.group, drawn]

end Sources

/-- Widths are kept as they are written but for their blanks. A space is read to one leaf with that width, and
drawn as one element with it. In a general fraction the same text is the thickness of the bar, whatever stands
before and behind it: with delimiters, a style and parts in braces the source is read to one fraction,
wherever delimiters have been read a width behind them is taken as the thickness, and the fraction is drawn
with a bar of that thickness. -/
theorem widths_kept (converter : Converter) {width : String} (isWidth : IsWidth width) :
    (∀ command ∈ Shape.spaces,
      converter.parse (command ++ braced width) = .ok [Reader.spaceNode command (packed width)] ∧
      ∀ display, converter.toElement (command ++ braced width) display =
        .ok (formulaElement converter.settings.namespaceUri display.word
          [⟨"mspace", [("width", packed width)], "", []⟩])) ∧
    (∀ left right style upper lower : String, (∀ c ∈ (left ++ right).toList, OrdinaryChar c) → Inert style →
      Inert upper → Inert lower → ∃ above below,
        String.join above = packed upper ∧ String.join below = packed lower ∧
        converter.parse ("\\genfrac" ++ braced left ++ braced right ++ braced width ++ braced style ++
            braced upper ++ braced lower) =
          .ok [Reader.inStyle (packed style) (Reader.thickFraction (Reader.fenceOf (packed left))
            (Reader.fenceOf (packed right)) (packed width) [Reader.leafGroup above, Reader.leafGroup below])]) ∧
    (∀ words, Spells width.toList words → ∀ terminator, Closing terminator → ∀ opening closing c d e rest,
      Reader.fence? (Reader.unbudgetedNested converter.symbols) terminator c = .ok (opening, d) →
      Reader.fence? (Reader.unbudgetedNested converter.symbols) terminator d = .ok (closing, e) →
      Reader.Before e (inBraces words) rest →
      ∃ after, after.tokens = rest ∧ after.pending = none ∧
        Reader.generalFraction (Reader.unbudgetedNested converter.symbols) terminator c =
          Reader.styleAndParts (Reader.unbudgetedNested converter.symbols) terminator opening closing
            (packed width) after) ∧
    ∀ ctx opening closing parts, ∃ before children behind,
      Draw.node ctx (Reader.thickFraction opening closing (packed width) parts) =
        .elements (before ++ [⟨"mfrac", [("linethickness", packed width)], "", children⟩] ++ behind) := by
  refine ⟨fun command spacing => ?_, ?_, ?_, ?_⟩
  · have parsed : Formula.parse converter.symbols (command ++ braced width) =
        .ok [Reader.spaceNode command (packed width)] := by
      obtain ⟨words, spells, texts⟩ := textsFrom_braced converter.symbols false isWidth.inert.ordinary []
      apply parse_oneNode (Reader.oneNode_space spacing spells isWidth) (List.cons_ne_nil _ _)
      rw [String.toList_append, ← List.append_nil (braced width).toList,
        textsFrom_command (alone_command command (List.mem_cons_of_mem _ spacing)), texts, textsFrom_nil,
        List.append_nil]
    refine ⟨parsed, fun display => ?_⟩
    rw [Converter.toElement, source_node parsed fun ctx => Draw.node_space ctx spacing _]
    rfl
  · intro left right style upper lower ordinary inertStyle inertUpper inertLower
    rw [String.toList_append, List.forall_mem_append] at ordinary
    obtain ⟨b, lowerWords, texts₆⟩ := textsFrom_braced converter.symbols false inertLower.ordinary []
    obtain ⟨a, upperWords, texts₅⟩ := textsFrom_braced converter.symbols false inertUpper.ordinary _
    obtain ⟨s, styleWords, texts₄⟩ := textsFrom_braced converter.symbols false inertStyle.ordinary _
    obtain ⟨words, spells, texts₃⟩ := textsFrom_braced converter.symbols false isWidth.inert.ordinary _
    obtain ⟨r, rightWords, texts₂⟩ := textsFrom_braced converter.symbols false ordinary.2 _
    obtain ⟨l, leftWords, texts₁⟩ := textsFrom_braced converter.symbols false ordinary.1 _
    refine ⟨a, b, upperWords.join, lowerWords.join, ?_⟩
    apply parse_oneNode (Reader.oneNode_fraction ⟨leftWords, ordinary.1⟩ ⟨rightWords, ordinary.2⟩ spells isWidth
      ⟨styleWords, inertStyle⟩ ⟨upperWords, inertUpper⟩ ⟨lowerWords, inertLower⟩) (List.cons_ne_nil _ _)
    simp only [String.toList_append, List.append_assoc]
    rw [← List.append_nil (braced lower).toList, textsFrom_command (alone_command _ List.mem_cons_self), texts₁,
      texts₂, texts₃, texts₄, texts₅, texts₆, textsFrom_nil, List.append_nil]
  · intro words spells terminator known opening closing c d e rest first second before
    exact Reader.generalFraction_thick spells isWidth known first second before
  · intro ctx opening closing parts
    exact ⟨_, _, _, Draw.node_thickFraction ctx opening closing (packed width) parts⟩

/-- A length over two lines. -/
theorem widths_kept_lines :
    Converter.parse {} "\\hspace\x7b1 e\n m\x7d" = .ok [Reader.spaceNode "\\hspace" "1em"] := by
  have isWidth : IsWidth "1 e\n m" := by
    have chars : "1 e\n m".toList.all fun c =>
        decide (c.isAlphanum ∨ c ∈ ['.', '+', '-'] ∨ Scan.isBlank c) := by
      decide +kernel
    exact ⟨fun c mem => of_decide_eq_true (List.all_eq_true.mp chars c mem), '1', by decide +kernel, by decide⟩
  have kept := ((widths_kept {} isWidth).1 "\\hspace" (by decide +kernel)).1
  have source : "\\hspace" ++ braced "1 e\n m" = "\\hspace\x7b1 e\n m\x7d" := by decide +kernel
  have text : packed "1 e\n m" = "1em" := by decide +kernel
  rwa [source, text] at kept

end FormulaMarkup

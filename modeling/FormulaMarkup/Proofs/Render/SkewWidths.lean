import FormulaMarkup.Proofs.Render.Decimals
import FormulaMarkup.Proofs.Render.WidthTexts

/-!
Skews with their widths. What is written for the steps of a skew is a whole number; its node has the width for
these steps, and is drawn as a row with a space of the opposite width behind it. Main statement: the widths of
skews are exact, and a skew whose width does not exist is refused.
-/
namespace FormulaMarkup

open Wait
open Source (Spells printed textsFrom)

variable {symbols : SymbolTable} {text : String} {words : List String}

/-! ## Texts -/

/-- What is left of a text without its blanks is a whole number, so there is nothing else in it. -/
theorem inert_of_integer {v : Int} (given : Skew.integer? (packed text) = some v) : Inert text := by
  intro c mem special
  have visible : Scan.isBlank c = false := by
    have other : "\\%_^\x7b\x7d']".toList.all (! Scan.isBlank ·) = true := by decide
    simpa using List.all_eq_true.mp other c special
  have held : c ∈ (packed text).toList := by
    rw [packed, String.toList_ofList]
    exact List.mem_filter.mpr ⟨mem, by simp [visible]⟩
  have other : "\\%_^\x7b\x7d']".toList.all fun c => decide (¬ (c.isDigit = true ∨ c = '-' ∨ c = '+')) := by
    decide
  exact of_decide_eq_true (List.all_eq_true.mp other c special) (Skew.integer?_chars given c held)

namespace Reader

variable {nested : Nested} {terminator : Option String} {c after : Cursor} {span : Span} {width target : Node}
  {v : Int}

/-! ## Nodes -/

def skewNode (width : String) (target : Node) : Node :=
  (Node.withChildren "\\skew" [target]).setAttribute "width" width

theorem skew_accepts {more : List Node} {em : String}
    (given : arguments nested terminator 2 c = .ok (width :: target :: more, after))
    (read : Skew.integer? width.flatText = some v) (known : Skew.width? v = some em) :
    skew nested terminator span c = .ok (skewNode em target, after) := by
  unfold skew
  rw [bind_ok given]
  simp only [read, Option.bind_some, known]
  rfl

theorem skew_refuses {more : List Node}
    (given : arguments nested terminator 2 c = .ok (width :: target :: more, after))
    (read : Skew.integer? width.flatText = some v) (none : Skew.width? v = none) :
    skew nested terminator span c = .error (.refused ⟨span, .invalidWidth width.flatText⟩) := by
  unfold skew
  rw [bind_ok given]
  simp only [read, Option.bind_some, none]
  rfl

theorem token_skew {stack : List Node} : Reader.token symbols nested terminator ⟨"\\skew", span⟩ stack =
    skew nested terminator span >>= fun node => pure ⟨node :: stack, false⟩ := by
  have shape : Shape.of? "\\skew" = some .skew := by decide +kernel
  rw [token_shape shape (by decide : "\\skew" ≠ "\\middle")]
  unfold Reader.command shape?
  rw [shape]

/-- A source that is a skew of one node, by steps in braces. -/
theorem ofTokens?_skew {steps : List String} (stepsWords : LeafWords text steps)
    (read : Skew.integer? (packed text) = some v) (one : OneNode symbols words target) {tokens : List Token}
    (texts : tokens.map (·.text) = inBraces steps ++ words) (stop : Nat) :
    Formula.ofTokens? symbols (⟨"\\skew", span⟩ :: tokens) stop =
      match Skew.width? v with
      | some em => .ok [skewNode em target]
      | none => .error (.refused ⟨span, .invalidWidth (packed text)⟩) := by
  have each : OneEach symbols (inBraces steps ++ (words ++ [])) [leafGroup steps, target] :=
    .cons (oneNode_leafGroup stepsWords.spells stepsWords.inert) (.cons one .nil)
  rw [List.append_nil] at each
  obtain ⟨after, given, done, free⟩ :=
    each.arguments (List.cons_ne_nil _ _) (fun _ _ => by simp) closing_none (before_behindFirst texts)
  have flat : (leafGroup steps).flatText = packed text := by rw [flatText_leafGroup, stepsWords.spells.join]
  rw [← flat] at read
  cases known : Skew.width? v with
  | some em =>
    apply @ofTokens?_first symbols [skewNode em target] _ _ _ after _ done free
    rw [token_skew, bind_ok (skew_accepts given read known)]
    rfl
  | none =>
    apply ofTokens?_failure
    rw [token_skew, bind_error (skew_refuses given read known), flat]

end Reader

/-! ## Drawing -/

/-- A row with a space of some width behind it. -/
def IsSpacedRow (width : String) (elements : List Element) : Prop :=
  ∃ children, elements = [⟨"mrow", [], "", children⟩, ⟨"mspace", [("width", width)], "", []⟩]

/-- A skew is a row with a space behind it, which takes back the width of the skew. -/
theorem Draw.node_skew (ctx : Context) (target : Node) {attributes : Attributes} {width : String}
    (given : attributes.get? "width" = some width) : ∃ elements,
      IsSpacedRow (Skew.opposite width) elements ∧
        Draw.node ctx { Node.withChildren "\\skew" [target] with attributes } = .elements elements := by
  have unswitched : Style.switches.lookup "\\skew" = none := by decide +kernel
  have styled : Style.of? "\\skew" = some ⟨"mrow", []⟩ := by decide +kernel
  have unaccented : Style.accents.lookup "\\skew" = none := by decide +kernel
  unfold Node.withChildren Draw.node
  rw [drawing_styled unswitched styled]
  simp +decide [command, inScope, content, scope?, body, labelled, filled, accented, shell, fences?, isModulus,
    Node.is, unaccented, tag, Draw.fence, Node.attribute?, given]
  exact ⟨_, rfl⟩

/-! ## Sources -/

/-- A text in braces is one node for a skew. -/
theorem oneNode_braced (symbols : SymbolTable) (inert : Inert text) : ∃ words, String.join words = packed text ∧
    Reader.OneNode symbols (textsFrom symbols false (braced text).toList) (Reader.leafGroup words) := by
  obtain ⟨words, spells, texts⟩ := textsFrom_braced symbols false inert.ordinary []
  rw [List.append_nil, textsFrom_nil, List.append_nil] at texts
  exact ⟨words, spells.join, texts ▸ Reader.oneNode_leafGroup spells inert⟩

/-- A source that is a skew. -/
def skewSource (steps target : String) : String := "\\skew" ++ braced steps ++ target

/-- The error of a source that is a skew is at its first token. -/
theorem parse_skew {v : Int} {target : String} {node : Node} (read : Skew.integer? (packed text) = some v)
    (one : Reader.OneNode symbols (textsFrom symbols false target.toList) node) :
    Formula.parse symbols (skewSource text target) =
      match Skew.width? v with
      | some em => .ok [Reader.skewNode em node]
      | none => .error ⟨⟨0, 5⟩, .invalidWidth (packed text)⟩ := by
  have alone : "\\skew".toList.head? = some '\\' ∧ Source.Alone "\\skew".toList.tail := by decide +kernel
  have inert := inert_of_integer read
  obtain ⟨steps, spells, texts⟩ := textsFrom_braced symbols false inert.ordinary target.toList
  have chars : (skewSource text target).toList = "\\skew".toList ++ ((braced text).toList ++ target.toList) := by
    rw [skewSource, String.toList_append, String.toList_append, List.append_assoc]
  have head : (skewSource text target).toList =
      '\\' :: ("skew".toList ++ '\x7b' :: (text.toList ++ '\x7d' :: target.toList)) := by
    rw [chars]
    simp [braced]
  obtain ⟨more, tokens⟩ : ∃ more, Source.tokens symbols (skewSource text target) = ⟨"\\skew", ⟨0, 5⟩⟩ :: more :=
    Source.tokens_command alone.2 head
  have words : more.map (·.text) = inBraces steps ++ textsFrom symbols false target.toList := by
    have all : _ = textsFrom symbols true _ := Source.texts_eq (skewSource text target)
    rw [chars, textsFrom_command alone, texts, tokens, List.map_cons] at all
    exact (List.cons.inj all).2
  rw [Formula.parse, tokens, Reader.ofTokens?_skew ⟨spells, inert⟩ read one words]
  cases Skew.width? v <;> rfl

theorem toElement_skew (converter : Converter) {steps target width : String} {node : Node}
    (parsed : Formula.parse converter.symbols (skewSource steps target) = .ok [Reader.skewNode width node])
    (display : Display) : ∃ elements, IsSpacedRow (Skew.opposite width) elements ∧
      converter.toElement (skewSource steps target) display =
        .ok (formulaElement converter.settings.namespaceUri display.word elements) := by
  rw [Converter.toElement, Draw.source, parsed]
  dsimp only
  generalize (⟨converter.symbols, .plain, false, _⟩ : Context) = ctx
  have found : Attributes.get? [("width", width)] "width" = some width := rfl
  obtain ⟨elements, row, drawn⟩ := Draw.node_skew ctx node found
  refine ⟨elements, row, ?_⟩
  change Draw.node ctx (Reader.skewNode width node) = .elements elements at drawn
  simp [Draw.group, drawn, Except.map]

/-- The widths of skews are exact. For as many steps as 64 bits can count, the width is a sign for steps back,
the decimal of so many times 0.0555, and the unit, as long as its ten-thousandths fit into 64 bits. It is read
back as that number, the opposite width as the opposite number, and no other steps have it. A skew by these
steps has the width, whatever its target is, and is drawn as a row with a space of the opposite width behind
it. If there is no width, the skew is refused. -/
theorem skews_exact (converter : Converter) {v : Int} (least : -2 ^ 63 ≤ v) (most : v < 2 ^ 63) :
    (∃ digits, Skew.Decimal digits (|(v : ℚ)| * 555 / 10000) ∧
      Skew.width? v =
        if v.natAbs * 555 < 2 ^ 64 then some ((if v < 0 then "-" else "") ++ String.ofList digits ++ "em")
        else none) ∧
    (∀ width, Skew.width? v = some width → Skew.ems? width = some ((v : ℚ) * 555 / 10000) ∧
      Skew.ems? (Skew.opposite width) = some (-((v : ℚ) * 555 / 10000)) ∧
      ∀ other, Skew.width? other = some width → other = v) ∧
    Skew.integer? (toString v) = some v ∧
    (∀ steps target node, Skew.integer? (packed steps) = some v →
      Reader.OneNode converter.symbols (textsFrom converter.symbols false target.toList) node →
      (Skew.width? v = none →
        converter.parse (skewSource steps target) = .error ⟨⟨0, 5⟩, .invalidWidth (packed steps)⟩) ∧
      ∀ width, Skew.width? v = some width →
        converter.parse (skewSource steps target) = .ok [Reader.skewNode width node] ∧
        ∀ display, ∃ elements, IsSpacedRow (Skew.opposite width) elements ∧
          converter.toElement (skewSource steps target) display =
            .ok (formulaElement converter.settings.namespaceUri display.word elements)) ∧
    ∀ nested terminator span c steps target more after,
      Reader.arguments nested terminator 2 c = .ok (steps :: target :: more, after) →
      Skew.integer? steps.flatText = some v →
      (Skew.width? v = none →
        Reader.skew nested terminator span c = .error (.refused ⟨span, .invalidWidth steps.flatText⟩)) ∧
      ∀ width, Skew.width? v = some width →
        Reader.skew nested terminator span c = .ok (Reader.skewNode width target, after) ∧
        ∀ ctx attributes, attributes.get? "width" = some width → ∃ elements,
          IsSpacedRow (Skew.opposite width) elements ∧
          Draw.node ctx { Node.withChildren "\\skew" [target] with attributes } = .elements elements := by
  refine ⟨Skew.width?_eq v, fun width known => ?_, Skew.integer?_toString least most, ?_, ?_⟩
  · have written := Skew.width_of_width? known
    exact ⟨written.read, written.opposite.read, fun other given => Skew.width?_injective given known⟩
  · intro steps target node read one
    have parsed := parse_skew read one
    refine ⟨fun none => ?_, fun width known => ?_⟩
    · rw [none] at parsed
      exact parsed
    · rw [known] at parsed
      exact ⟨parsed, toElement_skew converter parsed⟩
  · intro nested terminator span c steps target more after given read
    refine ⟨fun none => Reader.skew_refuses given read none, fun width known => ?_⟩
    exact ⟨Reader.skew_accepts given read known, fun ctx attributes => Draw.node_skew ctx target⟩

/-- Three steps back. -/
theorem skews_exact_back : ∃ node,
    Converter.parse {} "\\skew\x7b-3\x7d\x7bab\x7d" = .ok [Reader.skewNode "-0.1665em" node] ∧
      Skew.ems? "-0.1665em" = some (-1665 / 10000) ∧ Skew.ems? "0.1665em" = some (1665 / 10000) := by
  obtain ⟨-, read, -, sources, -⟩ := skews_exact {} (by decide : -2 ^ 63 ≤ (-3 : Int)) (by decide)
  have inert : Inert "ab" := by decide +kernel
  have known : Skew.width? (-3) = some "-0.1665em" := by decide +kernel
  have opposite : Skew.opposite "-0.1665em" = "0.1665em" := by decide +kernel
  have steps : Skew.integer? (packed "-3") = some (-3) := by decide +kernel
  obtain ⟨words, -, one⟩ := oneNode_braced (Converter.symbols {}) inert
  have source : skewSource "-3" (braced "ab") = "\\skew\x7b-3\x7d\x7bab\x7d" := by decide +kernel
  obtain ⟨parsed, -⟩ := (sources "-3" (braced "ab") _ steps one).2 _ known
  obtain ⟨ems, ems', -⟩ := read _ known
  have back : ((-3 : Int) : ℚ) * 555 / 10000 = -1665 / 10000 := by norm_num
  rw [back] at ems ems'
  rw [opposite] at ems'
  exact ⟨_, source ▸ parsed, ems, by rw [ems']; norm_num⟩

end FormulaMarkup

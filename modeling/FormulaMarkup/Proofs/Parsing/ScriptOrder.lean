import FormulaMarkup.Proofs.Parsing.Groups
import FormulaMarkup.Symbol.Known

/-!
The order of scripts. Main statement: a sequence that goes on with a subscript and a superscript is read to
the same nodes whichever of them comes first, or fails in both orders.
-/
namespace FormulaMarkup.Reader

open Wait

/-- The nodes that a run gives; nothing where it fails. -/
def nodes? (run : Except Failure (List Node × Cursor)) : Option (List Node) := run.toOption.map (·.1)

variable {symbols : SymbolTable} {terminator : Option String} {limit : Limit} {consumed : Bool}
  {words : List String} {nodes stack : List Node} {c d : Cursor} {rest : List Token}

/-- Where the tokens stand has no part in the nodes. -/
theorem nodes?_sameTexts (same : c.SameTexts d) :
    nodes? (unbudgeted symbols terminator limit consumed stack c) =
      nodes? (unbudgeted symbols terminator limit consumed stack d) := by
  have repeats := @Repeats.unbudgeted terminator limit consumed stack symbols
  cases first : unbudgeted symbols terminator limit consumed stack c with
  | ok result =>
    obtain ⟨last, second, -⟩ := repeats c d result.1 result.2 same first
    rw [second]
    rfl
  | error failure =>
    cases second : unbudgeted symbols terminator limit consumed stack d with
    | error failure => rfl
    | ok result =>
      obtain ⟨last, third, -⟩ := repeats d c result.1 result.2 same.symm second
      rw [first] at third
      cases third

/-- A sequence that goes on with a script: it puts the script on its stack and goes on, or fails. -/
theorem nodes?_script {kind : ScriptKind} (grouped : Grouped symbols words nodes)
    (known : Closing terminator) (before : Before c (kind.token :: inBraces words) rest) :
    nodes? (unbudgeted symbols terminator .unbounded consumed stack c) =
      (Script.put kind (.braces nodes) stack).toOption.bind fun next =>
        nodes? (unbudgeted symbols terminator .unbounded true next { c with tokens := rest }) := by
  cases put : Script.put kind (.braces nodes) stack with
  | ok next =>
    obtain ⟨after, left, free, goesOn⟩ := grouped.step known before put
    have same : after.SameTexts { c with tokens := rest } :=
      ⟨congrArg _ left, free.trans before.free.symm⟩
    rw [goesOn, nodes?_sameTexts same]
    rfl
  | error cause =>
    obtain ⟨mark, tail, left, text, -⟩ := before.next
    rw [unbudgeted_refused known before.free left text put]
    rfl

/-- A sequence that goes on with two scripts, in front of tokens with these texts. -/
theorem nodes?_scripts (kind other : ScriptKind) {firstWords secondWords : List String}
    {first second : List Node} {texts : List String} (one : Grouped symbols firstWords first)
    (two : Grouped symbols secondWords second) (known : Closing terminator) (free : c.pending = none)
    (begins : c.tokens.map (·.text) =
      kind.token :: inBraces firstWords ++ other.token :: inBraces secondWords ++ texts)
    (free' : d.pending = none) (left : d.tokens.map (·.text) = texts) :
    nodes? (unbudgeted symbols terminator .unbounded consumed stack c) =
      ((Script.put kind (.braces first) stack).toOption.bind fun next =>
          (Script.put other (.braces second) next).toOption).bind fun next =>
        nodes? (unbudgeted symbols terminator .unbounded true next d) := by
  obtain ⟨scripts, rest, split, scripts', rest'⟩ := List.map_eq_append_iff.mp begins
  obtain ⟨front, back, rfl, front', back'⟩ := List.map_eq_append_iff.mp scripts'
  have before : Before c (kind.token :: inBraces firstWords) (back ++ rest) :=
    ⟨free, front, front', by rw [split, List.append_assoc]⟩
  have before' : Before { c with tokens := back ++ rest } (other.token :: inBraces secondWords) rest :=
    ⟨free, back, back', rfl⟩
  have same : Cursor.SameTexts { c with tokens := rest } d := ⟨rest'.trans left.symm, free.trans free'.symm⟩
  rw [nodes?_script one known before, Option.bind_assoc]
  refine congrArg _ (funext fun next => ?_)
  rw [nodes?_script two known before']
  refine congrArg _ (funext fun next => ?_)
  exact nodes?_sameTexts same

/-- A sequence without a limit that has read nodes, in which those for scripts are well formed, goes on with
a superscript and a subscript: in either order it is read to the same nodes, their modifiers included, or
fails. -/
theorem scripts_commute (symbols : SymbolTable) {aboveWords belowWords : List String}
    {above below : List Node} (upper : Grouped symbols aboveWords above)
    (lower : Grouped symbols belowWords below) {terminator : Option String} (known : Closing terminator)
    {nodes : List Node} (scripted : ∀ node ∈ nodes, node.Scripted) (consumed : Bool)
    (rest : List String) {c d : Cursor} (free : c.pending = none) (free' : d.pending = none)
    (texts : c.tokens.map (·.text) = "^" :: inBraces aboveWords ++ "_" :: inBraces belowWords ++ rest)
    (texts' : d.tokens.map (·.text) = "_" :: inBraces belowWords ++ "^" :: inBraces aboveWords ++ rest)
    {budget budget' : Nat} (enough : c.tokens.length < budget) (enough' : d.tokens.length < budget') :
    nodes? (sequence symbols terminator .unbounded budget consumed nodes.reverse c) =
      nodes? (sequence symbols terminator .unbounded budget' consumed nodes.reverse d) := by
  have scripted' : ∀ node ∈ nodes.reverse, node.Scripted :=
    fun node mem => scripted node (List.mem_reverse.mp mem)
  obtain ⟨scripts, tail, -, -, tail'⟩ := List.map_eq_append_iff.mp texts
  have free'' : Cursor.pending { c with tokens := tail } = none := free
  rw [(sequence_same symbols budget terminator .unbounded consumed nodes.reverse c enough).1,
    (sequence_same symbols budget' terminator .unbounded consumed nodes.reverse d enough').1,
    nodes?_scripts .sup .sub upper lower known free texts free'' tail',
    nodes?_scripts .sub .sup lower upper known free' texts' free'' tail', Script.put_comm _ _ scripted']

/-- Both limits of a sum, in front of a letter. -/
theorem scripts_commute_limits :
    let c : Cursor := { tokens := Source.tokens .known "^\x7bn\x7d_\x7bi\x7dx", last := ⟨0, 0⟩, stop := 9 }
    let d : Cursor := { tokens := Source.tokens .known "_\x7bi\x7d^\x7bn\x7dx", last := ⟨0, 0⟩, stop := 9 }
    let nodes : List Node := [.leaf "\\sum", .leaf "\\limits"]
    let both : Node := .withChildren "_^" [.leaf "\\sum", .braces [.leaf "i"], .braces [.leaf "n"]]
    Grouped .known ["n"] [.leaf "n"] ∧ Grouped .known ["i"] [.leaf "i"] ∧ Closing none ∧
      (∀ node ∈ nodes, node.Scripted) ∧ c.pending = none ∧ d.pending = none ∧
      c.tokens.map (·.text) = "^" :: inBraces ["n"] ++ "_" :: inBraces ["i"] ++ ["x"] ∧
      d.tokens.map (·.text) = "_" :: inBraces ["i"] ++ "^" :: inBraces ["n"] ++ ["x"] ∧
      c.tokens.length < 10 ∧ d.tokens.length < 11 ∧
      nodes? (sequence .known none .unbounded 10 true nodes.reverse c) =
        nodes? (sequence .known none .unbounded 11 true nodes.reverse d) ∧
      nodes? (sequence .known none .unbounded 10 true nodes.reverse c) =
        some [{ both with modifier := some .limits }, .leaf "x"] := by
  intro c d nodes both
  have upper : Grouped .known ["n"] [.leaf "n"] :=
    ⟨by decide, Source.tokens .known "\x7bn\x7d", 3, by decide +kernel, by decide +kernel⟩
  have lower : Grouped .known ["i"] [.leaf "i"] :=
    ⟨by decide, Source.tokens .known "\x7bi\x7d", 3, by decide +kernel, by decide +kernel⟩
  have scripted : ∀ node ∈ nodes, node.Scripted :=
    List.forall_mem_cons.mpr ⟨nofun, List.forall_mem_singleton.mpr nofun⟩
  have texts : c.tokens.map (·.text) = "^" :: inBraces ["n"] ++ "_" :: inBraces ["i"] ++ ["x"] := by
    decide +kernel
  have texts' : d.tokens.map (·.text) = "_" :: inBraces ["i"] ++ "^" :: inBraces ["n"] ++ ["x"] := by
    decide +kernel
  have enough : c.tokens.length < 10 := by decide +kernel
  have enough' : d.tokens.length < 11 := by decide +kernel
  exact ⟨upper, lower, closing_none, scripted, rfl, rfl, texts, texts', enough, enough',
    scripts_commute .known upper lower closing_none scripted true ["x"] rfl rfl texts texts' enough enough',
    by decide +kernel⟩

end FormulaMarkup.Reader

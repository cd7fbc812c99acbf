import FormulaMarkup.Formula.Parse
import FormulaMarkup.Proofs.Source.Spacing

/-!
Spelling: lists of nodes with the words that they are written with in the usual notation. The words
of a list are those of its nodes, one behind the other; what a node holds is written in braces, in
brackets, between delimiters or between the two ends of an environment.
-/
namespace FormulaMarkup

open Source (IsSymbol Plain Spaced)

/-- A letter: an ASCII one, or any character that is not ASCII. -/
def IsLetter (c : Char) : Prop := c.isAlpha = true ∨ 127 < c.toNat

/-- The delimiters that may stand behind `\left` and `\right`. -/
def fenceWords : List String := ["(", ")", "[", "]", "|", "/", "."]

/-- The leaf of the `\right` with a delimiter. -/
def rightLeaf (delimiter : String) : Node :=
  { Node.leaf "\\right" with delimiter := some (.single delimiter) }

def leftNode (opening closing : String) (children : List Node) : Node :=
  { Node.withChildren "\\left" (children ++ [rightLeaf closing]) with
    delimiter := some (.single opening) }

/-- What a script stands on: a letter or a group. -/
inductive IsBase : Node → Prop where
  | letter {c : Char} (letter : IsLetter c) : IsBase (.leaf (String.singleton c))
  | braces (children : List Node) : IsBase (.braces children)

/-- Whether the first node of a list can be taken for the columns of a table. -/
def startsWithColumns (nodes : List Node) : Bool :=
  nodes.head?.any fun node => node.is Word.braces && Alignment.isValid (Node.tokensOf node.childList)

def inBraces (words : List String) : List String := Word.openBrace :: (words ++ [Word.closeBrace])

/-- A list of nodes, and the words that it is written with. In the body of a table there are marks
between its cells and rows. -/
inductive Spelled : (body : Bool) → List Node → List String → Prop where
  | nil {body : Bool} : Spelled body [] []
  | letter {body : Bool} {c : Char} {nodes : List Node} {words : List String} (letter : IsLetter c)
      (rest : Spelled body nodes words) :
      Spelled body (.leaf (String.singleton c) :: nodes) (String.singleton c :: words)
  | number {body : Bool} {digits : List Char} {nodes : List Node} {words : List String}
      (some : digits ≠ []) (all : ∀ c ∈ digits, c.isDigit = true)
      (rest : Spelled body nodes words) :
      Spelled body (.leaf (String.ofList digits) :: nodes) (String.ofList digits :: words)
  | mark {mark : String} {nodes : List Node} {words : List String} (known : mark ∈ ["&", "\\\\"])
      (rest : Spelled true nodes words) :
      Spelled true (.leaf mark :: nodes) (mark :: words)
  | braces {body : Bool} {inner nodes : List Node} {innerWords words : List String}
      (inside : Spelled false inner innerWords) (rest : Spelled body nodes words) :
      Spelled body (.braces inner :: nodes) (inBraces innerWords ++ words)
  | script {body : Bool} {base : Node} {inner nodes : List Node}
      {baseWords innerWords words : List String} (kind : ScriptKind) (shape : IsBase base)
      (on : Spelled false [base] baseWords) (inside : Spelled false inner innerWords)
      (rest : Spelled body nodes words) :
      Spelled body (.withChildren kind.token [base, .braces inner] :: nodes)
        (baseWords ++ kind.token :: inBraces innerWords ++ words)
  | scripts {body : Bool} {base : Node} {sub sup nodes : List Node}
      {baseWords subWords supWords words : List String} (shape : IsBase base)
      (on : Spelled false [base] baseWords) (low : Spelled false sub subWords)
      (high : Spelled false sup supWords) (rest : Spelled body nodes words) :
      Spelled body (.withChildren Script.both [base, .braces sub, .braces sup] :: nodes)
        (baseWords ++ "_" :: inBraces subWords ++ "^" :: inBraces supWords ++ words)
  | fraction {body : Bool} {upper lower nodes : List Node}
      {upperWords lowerWords words : List String} (top : Spelled false upper upperWords)
      (bottom : Spelled false lower lowerWords) (rest : Spelled body nodes words) :
      Spelled body (.withChildren "\\frac" [.braces upper, .braces lower] :: nodes)
        ("\\frac" :: inBraces upperWords ++ inBraces lowerWords ++ words)
  | squareRoot {body : Bool} {inner nodes : List Node} {innerWords words : List String}
      (inside : Spelled false inner innerWords) (rest : Spelled body nodes words) :
      Spelled body (.withChildren "\\sqrt" [.braces inner] :: nodes)
        ("\\sqrt" :: inBraces innerWords ++ words)
  | root {body : Bool} {index inner nodes : List Node} {indexWords innerWords words : List String}
      (some : index ≠ []) (label : Spelled false index indexWords)
      (inside : Spelled false inner innerWords) (rest : Spelled body nodes words) :
      Spelled body (.withChildren "\\root" [.braces inner, Node.collapse index] :: nodes)
        ("\\sqrt" :: "[" :: (indexWords ++ "]" :: inBraces innerWords) ++ words)
  | fence {body : Bool} {opening closing : String} {inner nodes : List Node}
      {innerWords words : List String} (opens : opening ∈ fenceWords)
      (closes : closing ∈ fenceWords) (inside : Spelled false inner innerWords)
      (rest : Spelled body nodes words) :
      Spelled body (leftNode opening closing inner :: nodes)
        ("\\left" :: opening :: (innerWords ++ ["\\right", closing]) ++ words)
  | table {body : Bool} {cells nodes : List Node} {cellWords words : List String}
      (plain : startsWithColumns cells = false) (inside : Spelled true cells cellWords)
      (rest : Spelled body nodes words) :
      Spelled body (.withChildren "\\matrix" cells :: nodes)
        ("\\begin\x7bmatrix\x7d" :: (cellWords ++ ["\\end\x7bmatrix\x7d"]) ++ words)

theorem Spelled.nil_of_no_words {body : Bool} {nodes : List Node} (spelled : Spelled body nodes []) :
    nodes = [] := by
  generalize none : ([] : List String) = words at spelled
  cases spelled with
  | nil => rfl
  | _ => simp [inBraces] at none

/-! ## Words without a meaning of their own -/

/-- Whether a word begins as those that are commands, terminators or the like. -/
def startsSpecial (word : String) : Bool :=
  word.toList.head?.any fun c => "\\\x7b\x7d_^']".toList.contains c

theorem ne_of_special {word other : String} (plain : startsSpecial word = false)
    (special : startsSpecial other = true) : word ≠ other := by
  rintro rfl
  rw [plain] at special
  cases special

theorem begins_eq_false {start word : String} (special : startsSpecial start = true)
    (plain : startsSpecial word = false) : Word.begins start word = false := by
  by_contra begins
  rw [Bool.not_eq_false, Word.begins, List.isPrefixOf_iff_prefix] at begins
  obtain ⟨rest, split⟩ := begins
  unfold startsSpecial at special plain
  rw [← split] at plain
  cases shape : start.toList with
  | nil =>
    rw [shape] at special
    cases special
  | cons c cs =>
    rw [shape] at special plain
    rw [List.cons_append, List.head?_cons] at plain
    rw [List.head?_cons, plain] at special
    cases special

theorem IsLetter.startsSpecial_eq_false {c : Char} (letter : IsLetter c) :
    startsSpecial (String.singleton c) = false := by
  have none : "\\\x7b\x7d_^']".toList.all (fun d => !(d.isAlpha || decide (127 < d.toNat))) = true := by
    decide
  simp only [startsSpecial, String.toList_singleton, List.head?_cons, Option.any_some]
  by_contra special
  rw [Bool.not_eq_false, List.contains_iff_mem] at special
  have other := List.all_eq_true.mp none c special
  rcases letter with ascii | beyond
  · simp [ascii] at other
  · simp [beyond] at other

theorem startsSpecial_number {digits : List Char} (some : digits ≠ [])
    (all : ∀ c ∈ digits, c.isDigit = true) : startsSpecial (String.ofList digits) = false := by
  have none : "\\\x7b\x7d_^']".toList.all (!·.isDigit) = true := by decide
  cases digits with
  | nil => exact absurd rfl some
  | cons c cs =>
    simp only [startsSpecial, String.toList_ofList, List.head?_cons, Option.any_some]
    by_contra special
    rw [Bool.not_eq_false, List.contains_iff_mem] at special
    have other := List.all_eq_true.mp none c special
    simp [all c List.mem_cons_self] at other

/-! ## Words in a row -/

theorem spaced_inBraces {words : List String} (spaced : Spaced words) : Spaced (inBraces words) := by
  refine .cons (.symbol (c := '\x7b') (by decide)) (spaced.append ?_)
  exact .cons (.symbol (c := '\x7d') (by decide)) .nil

theorem plain_fence {word : String} (known : word ∈ fenceWords) : Plain word := by
  simp only [fenceWords, List.mem_cons, List.not_mem_nil, or_false] at known
  rcases known with rfl | rfl | rfl | rfl | rfl | rfl | rfl
  · exact .symbol (c := '(') (by decide)
  · exact .symbol (c := ')') (by decide)
  · exact .symbol (c := '[') (by decide)
  · exact .symbol (c := ']') (by decide)
  · exact .symbol (c := '|') (by decide)
  · exact .symbol (c := '/') (by decide)
  · exact .symbol (c := '.') (by decide)

/-- Whatever is spelled is read back from its source word by word. -/
theorem Spelled.spaced {body : Bool} {nodes : List Node} {words : List String}
    (spelled : Spelled body nodes words) : Spaced words := by
  have low : Plain "_" := .symbol (c := '_') (by decide)
  have high : Plain "^" := .symbol (c := '^') (by decide)
  induction spelled with
  | nil => exact .nil
  | letter letter _ ih => exact .cons (.symbol (letter.imp_right .inl)) ih
  | number some all _ ih => exact .cons (.number some all) ih
  | mark known _ ih =>
    refine .cons ?_ ih
    simp only [List.mem_cons, List.not_mem_nil, or_false] at known
    rcases known with rfl | rfl
    · exact .symbol (c := '&') (by decide)
    · exact .command (by decide)
  | braces _ _ inside rest => exact (spaced_inBraces inside).append rest
  | script kind _ _ _ _ on inside rest =>
    have mark : Plain kind.token := by
      cases kind
      · exact low
      · exact high
    exact (on.append (.cons mark (spaced_inBraces inside))).append rest
  | scripts _ _ _ _ _ on sub sup rest =>
    have first := on.append (.cons low (spaced_inBraces sub))
    exact (first.append (.cons high (spaced_inBraces sup))).append rest
  | fraction _ _ _ top bottom rest =>
    exact .fraction (((spaced_inBraces top).append (spaced_inBraces bottom)).append rest)
  | squareRoot _ _ inside rest =>
    exact .cons (.command (by decide)) ((spaced_inBraces inside).append rest)
  | root _ _ _ _ label inside rest =>
    have opens : Plain "[" := .symbol (c := '[') (by decide)
    have closes : Plain "]" := .symbol (c := ']') (by decide)
    have bracketed := label.append (.cons closes (spaced_inBraces inside))
    exact .cons (.command (by decide)) (.cons opens (bracketed.append rest))
  | fence opens closes _ _ inside rest =>
    have right : Spaced ["\\right", _] :=
      .cons (.command (by decide)) (.cons (plain_fence closes) .nil)
    exact .cons (.command (by decide)) (.cons (plain_fence opens) ((inside.append right).append rest))
  | table _ _ _ inside rest =>
    have ending : Spaced ["\\end\x7bmatrix\x7d"] := .cons (.command (by decide)) .nil
    exact .cons (.command (by decide)) ((inside.append ending).append rest)

end FormulaMarkup

import FormulaMarkup.Markup.Attributes

/-!
Styles of commands: the element that a command is drawn as, with the attributes that it always has.
Style switches are not drawn; they wrap all that follows in their group.
-/
namespace FormulaMarkup

structure Style where
  tag : String
  attributes : Attributes := []
  deriving Repr, DecidableEq

namespace Style

def scripts : List (String × Style) :=
  [("_", ⟨"msub", []⟩), ("^", ⟨"msup", []⟩), ("_^", ⟨"msubsup", []⟩)]

def fractions : List (String × Style) :=
  ["\\binom", "\\dbinom", "\\tbinom"].map (·, ⟨"mfrac", [("linethickness", "0")]⟩) ++
    ["\\cfrac", "\\dfrac", "\\frac", "\\genfrac", "\\tfrac"].map (·, ⟨"mfrac", []⟩)

def stacked : List (String × Style) :=
  ["\\acute", "\\bar", "\\breve", "\\check", "\\dot", "\\ddot", "\\dddot", "\\ddddot", "\\grave",
    "\\hat", "\\mathring", "\\overbrace", "\\overleftarrow", "\\overleftrightarrow", "\\overline",
    "\\overparen", "\\overrightarrow", "\\tilde", "\\overset", "\\vec", "\\widehat", "\\widetilde",
    "\\xleftarrow", "\\xrightarrow"].map (·, ⟨"mover", []⟩) ++
  ["\\underbrace", "\\underleftarrow", "\\underline", "\\underparen", "\\underrightarrow",
    "\\underleftrightarrow", "\\underset"].map (·, ⟨"munder", []⟩) ++
  [("\\limits", ⟨"munderover", []⟩)]

def spaces : List (String × Style) :=
  [("\\:", "0.222em"), ("\\,", "0.167em"), ("\\enspace", "0.5em"), ("\\!", "negativethinmathspace"),
    ("\\>", "0.222em"), ("\\negthinspace", "negativethinmathspace"),
    ("\\negmedspace", "negativemediummathspace"), ("\\negthickspace", "negativethickmathspace"),
    ("\\thinspace", "thinmathspace"), ("\\qquad", "2em"), ("\\quad", "1em"),
    ("\\;", "0.278em")].map (fun (name, width) => (name, ⟨"mspace", [("width", width)]⟩)) ++
  ["\\hskip", "\\hspace", "\\kern", "\\mkern", "\\mskip", "\\mspace"].map (·, ⟨"mspace", []⟩) ++
  [("\\\\", ⟨"mspace", [("linebreak", "newline")]⟩)]

def texts : List (String × Style) :=
  ["\\text", "\\textrm", "\\hbox", "\\mbox"].map (·, ⟨"mtext", []⟩) ++
  [("\\textbf", "bold"), ("\\textit", "italic"), ("\\textsf", "sans-serif"),
    ("\\texttt", "monospace")].map
      (fun (name, variant) => (name, ⟨"mtext", [("mathvariant", variant)]⟩)) ++
  ["\\boxed", "\\fbox"].map (·, ⟨"menclose", [("notation", "box")]⟩)

def stretching : Attributes := [("stretchy", "true"), ("fence", "true")]

def delimiters : List (String × Style) :=
  [("\\left", ⟨"mo", stretching ++ [("form", "prefix")]⟩),
    ("\\middle", ⟨"mo", stretching ++ [("lspace", "0.05em"), ("rspace", "0.05em")]⟩),
    ("\\right", ⟨"mo", stretching ++ [("form", "postfix")]⟩)]

def sizes : List (String × String) :=
  [("\\Bigg", "2.470em"), ("\\bigg", "2.047em"), ("\\Big", "1.623em"), ("\\big", "1.2em")]

/-- Sized delimiters: plain ones, and those that open, stand between, or close. -/
def sizedDelimiters : List (String × Style) :=
  sizes.flatMap fun (name, size) =>
    let sized : Attributes := [("minsize", size), ("maxsize", size)]
    (name, ⟨"mo", sized⟩) :: ["l", "m", "r"].map fun side => (name ++ side, ⟨"mo", stretching ++ sized⟩)

def tableCommands : List String := [
  "\\matrix", "\\matrix*", "\\pmatrix", "\\pmatrix*", "\\bmatrix", "\\bmatrix*", "\\Bmatrix",
  "\\Bmatrix*", "\\vmatrix", "\\vmatrix*", "\\Vmatrix", "\\Vmatrix*", "\\array", "\\subarray",
  "\\substack", "\\cases", "\\displaylines", "\\smallmatrix", "\\split", "\\align", "\\align*",
  "\\aligned", "\\gather", "\\gather*", "\\gathered"]

/-- The attributes of a table with equations that are displayed. -/
def equations : Attributes := [("displaystyle", "true"), ("rowspacing", "3pt")]

def spacedTables : List (String × Style) :=
  [("\\displaylines", ⟨"mtable",
      [("rowspacing", "0.5em"), ("columnspacing", "1em"), ("displaystyle", "true")]⟩),
    ("\\smallmatrix", ⟨"mtable", [("rowspacing", "0.1em"), ("columnspacing", "0.2778em")]⟩),
    ("\\split", ⟨"mtable",
      [("displaystyle", "true"), ("columnspacing", "0em"), ("rowspacing", "3pt")]⟩)] ++
  ["\\align", "\\align*", "\\aligned", "\\gather", "\\gather*", "\\gathered"].map
    (·, ⟨"mtable", equations⟩)

/-- Tables. A table without attributes of its own comes behind those that have some. -/
def tables : List (String × Style) := spacedTables ++ tableCommands.map (·, ⟨"mtable", []⟩)

/-- The operators with a name whose scripts stand above and below. -/
def limitCommands : List String := ["\\lim", "\\sup", "\\inf", "\\max", "\\min"]

def others : List (String × Style) :=
  [("\\color", ⟨"mstyle", []⟩), ("\\sqrt", ⟨"msqrt", []⟩), ("\\root", ⟨"mroot", []⟩),
    ("\\href", ⟨"mrow", []⟩), ("\\sideset", ⟨"mrow", []⟩), ("\\skew", ⟨"mrow", []⟩),
    ("\\hphantom", ⟨"mphantom", []⟩), ("\\phantom", ⟨"mphantom", []⟩),
    ("\\vphantom", ⟨"mphantom", []⟩), ("\\mod", ⟨"mi", []⟩), ("\\pmod", ⟨"mi", []⟩),
    ("\\bmod", ⟨"mo", []⟩)] ++ limitCommands.map (·, ⟨"mo", []⟩)

/-- All commands that are drawn as an element of their own. -/
def commands : List (String × Style) :=
  scripts ++ fractions ++ stacked ++ spaces ++ texts ++ delimiters ++ sizedDelimiters ++ tables ++
    others

def of? (command : String) : Option Style := commands.lookup command

/-- The sizes and styles that a switch sets for all that follows. -/
def switches : List (String × Attributes) := [
  ("\\Huge", [("mathsize", "2.49em")]),
  ("\\huge", [("mathsize", "2.07em")]),
  ("\\LARGE", [("mathsize", "1.73em")]),
  ("\\Large", [("mathsize", "1.44em")]),
  ("\\large", [("mathsize", "1.2em")]),
  ("\\normalsize", [("mathsize", "1em")]),
  ("\\scriptsize", [("mathsize", "0.7em")]),
  ("\\small", [("mathsize", "0.85em")]),
  ("\\tiny", [("mathsize", "0.5em")]),
  ("\\Tiny", [("mathsize", "0.6em")]),
  ("\\displaystyle", [("displaystyle", "true"), ("scriptlevel", "0")]),
  ("\\textstyle", [("displaystyle", "false"), ("scriptlevel", "0")]),
  ("\\scriptstyle", [("displaystyle", "false"), ("scriptlevel", "1")]),
  ("\\scriptscriptstyle", [("displaystyle", "false"), ("scriptlevel", "2")])]

/-- The accents: the glyph that is put over or under something, and its attributes. -/
def accents : List (String × String × Attributes) := [
  ("\\acute", "\u00b4", []),
  ("\\bar", "\u00af", [("stretchy", "true")]),
  ("\\breve", "\u02d8", []),
  ("\\check", "\u02c7", []),
  ("\\dot", "\u02d9", []),
  ("\\ddot", "\u00a8", []),
  ("\\dddot", "\u20db", []),
  ("\\ddddot", "\u20dc", []),
  ("\\grave", "\x60", []),
  ("\\hat", "^", [("stretchy", "false")]),
  ("\\mathring", "\u02da", []),
  ("\\overbrace", "\u23de", []),
  ("\\overleftarrow", "\u2190", []),
  ("\\overleftrightarrow", "\u2194", []),
  ("\\overline", "\u2015", [("accent", "true")]),
  ("\\overparen", "\u23dc", []),
  ("\\overrightarrow", "\u2192", []),
  ("\\tilde", "~", [("stretchy", "false")]),
  ("\\underbrace", "\u23df", []),
  ("\\underleftarrow", "\u2190", []),
  ("\\underleftrightarrow", "\u2194", []),
  ("\\underline", "\u2015", [("accent", "true")]),
  ("\\underparen", "\u23dd", []),
  ("\\underrightarrow", "\u2192", []),
  ("\\vec", "\u2192", [("stretchy", "true")]),
  ("\\widehat", "^", []),
  ("\\widetilde", "~", [])]

end Style

end FormulaMarkup

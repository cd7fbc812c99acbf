import FormulaMarkup.Symbol.Table

/-!
The symbols that are known without a symbol file: the records of common letters, operators,
relations, arrows and shapes, and the table made from them. The order of the records matters where
two of them list the same name.
-/
namespace FormulaMarkup

/-- Characters of the ASCII and Latin-1 ranges, and the letters without a dot. -/
def basicSymbols : List SymbolRecord := [
  ⟨0x0021, ["!", "!", "\\exclam"]⟩,
  ⟨0x0023, ["#", "\\#", "\\octothorpe"]⟩,
  ⟨0x0024, ["$", "\\$", "\\mathdollar", "\\dollar"]⟩,
  ⟨0x0025, ["%", "\\%", "\\percent"]⟩,
  ⟨0x0026, ["&", "\\&", "\\ampersand"]⟩,
  ⟨0x0028, ["(", "(", "\\lparen"]⟩,
  ⟨0x0029, [")", ")", "\\rparen"]⟩,
  ⟨0x002A, ["*", "*"]⟩,
  ⟨0x002B, ["+", "+", "\\plus"]⟩,
  ⟨0x002C, [",", ",", "\\comma"]⟩,
  ⟨0x002D, ["-", "-", "\\mathhyphen"]⟩,
  ⟨0x002E, [".", ".", "\\period"]⟩,
  ⟨0x002F, ["/", "/", "\\mathslash"]⟩,
  ⟨0x003A, [":", ":", "\\mathcolon"]⟩,
  ⟨0x003B, [";", ";", "\\semicolon"]⟩,
  ⟨0x003C, ["<", "<", "\\less"]⟩,
  ⟨0x003D, ["=", "=", "\\equal"]⟩,
  ⟨0x003E, [">", ">", "\\greater"]⟩,
  ⟨0x003F, ["?", "?", "\\question"]⟩,
  ⟨0x0040, ["@", "@", "\\atsign"]⟩,
  ⟨0x005B, ["[", "[", "\\lbrack"]⟩,
  ⟨0x005C, ["\\", "\\backslash", "\\backslash"]⟩,
  ⟨0x005D, ["]", "]", "\\rbrack"]⟩,
  ⟨0x005F, ["_", "\\_", "\\lowline"]⟩,
  ⟨0x007B, ["\x7b", "\\\x7b", "\\lbrace"]⟩,
  ⟨0x007C, ["|", "|", "\\vert"]⟩,
  ⟨0x007D, ["\x7d", "\\\x7d", "\\rbrace"]⟩,
  ⟨0x00A7, ["§", "\\S", "\\S"]⟩,
  ⟨0x00AC, ["¬", "\\neg", "\\neg", "\\lnot"]⟩,
  ⟨0x00B1, ["±", "\\pm", "\\pm"]⟩,
  ⟨0x00B6, ["¶", "\\P", "\\P"]⟩,
  ⟨0x00B7, ["·", "\\cdotp", "\\cdotp", "\\centerdot"]⟩,
  ⟨0x00D7, ["×", "\\times", "\\times"]⟩,
  ⟨0x00F7, ["÷", "\\div", "\\div"]⟩,
  ⟨0x0131, ["ı", "\\imath", "\\imath"]⟩,
  ⟨0x0237, ["ȷ", "\\jmath", "\\jmath"]⟩,
  ⟨0x030A, ["\u030a", "\\mathring", "\\ocirc"]⟩]

def greekSymbols : List SymbolRecord := [
  ⟨0x0393, ["Γ", "\\Gamma", "\\upGamma"]⟩,
  ⟨0x0394, ["Δ", "\\Delta", "\\upDelta"]⟩,
  ⟨0x0398, ["Θ", "\\Theta", "\\upTheta"]⟩,
  ⟨0x039B, ["Λ", "\\Lambda", "\\upLambda"]⟩,
  ⟨0x039E, ["Ξ", "\\Xi", "\\upXi"]⟩,
  ⟨0x03A0, ["Π", "\\Pi", "\\upPi"]⟩,
  ⟨0x03A3, ["Σ", "\\Sigma", "\\upSigma"]⟩,
  ⟨0x03A5, ["Υ", "\\Upsilon", "\\upUpsilon"]⟩,
  ⟨0x03A6, ["Φ", "\\Phi", "\\upPhi"]⟩,
  ⟨0x03A8, ["Ψ", "\\Psi", "\\upPsi"]⟩,
  ⟨0x03A9, ["Ω", "\\Omega", "\\upOmega"]⟩,
  ⟨0x03B1, ["α", "\\alpha", "\\upalpha"]⟩,
  ⟨0x03B2, ["β", "\\beta", "\\upbeta"]⟩,
  ⟨0x03B3, ["γ", "\\gamma", "\\upgamma"]⟩,
  ⟨0x03B4, ["δ", "\\delta", "\\updelta"]⟩,
  ⟨0x03B5, ["ε", "\\varepsilon", "\\upvarepsilon"]⟩,
  ⟨0x03B6, ["ζ", "\\zeta", "\\upzeta"]⟩,
  ⟨0x03B7, ["η", "\\eta", "\\upeta"]⟩,
  ⟨0x03B8, ["θ", "\\theta", "\\uptheta"]⟩,
  ⟨0x03B9, ["ι", "\\iota", "\\upiota"]⟩,
  ⟨0x03BA, ["κ", "\\kappa", "\\upkappa"]⟩,
  ⟨0x03BB, ["λ", "\\lambda", "\\uplambda"]⟩,
  ⟨0x03BC, ["μ", "\\mu", "\\upmu"]⟩,
  ⟨0x03BD, ["ν", "\\nu", "\\upnu"]⟩,
  ⟨0x03BE, ["ξ", "\\xi", "\\upxi"]⟩,
  ⟨0x03BF, ["ο", "\\upomicron"]⟩,
  ⟨0x03C0, ["π", "\\pi", "\\uppi"]⟩,
  ⟨0x03C1, ["ρ", "\\rho", "\\uprho"]⟩,
  ⟨0x03C2, ["ς", "\\varsigma", "\\upvarsigma"]⟩,
  ⟨0x03C3, ["σ", "\\sigma", "\\upsigma"]⟩,
  ⟨0x03C4, ["τ", "\\tau", "\\uptau"]⟩,
  ⟨0x03C5, ["υ", "\\upsilon", "\\upupsilon"]⟩,
  ⟨0x03C6, ["φ", "\\varphi", "\\upvarphi"]⟩,
  ⟨0x03C7, ["χ", "\\chi", "\\upchi"]⟩,
  ⟨0x03C8, ["ψ", "\\psi", "\\uppsi"]⟩,
  ⟨0x03C9, ["ω", "\\omega", "\\upomega"]⟩,
  ⟨0x03D1, ["ϑ", "\\vartheta", "\\upvartheta"]⟩,
  ⟨0x03D5, ["ϕ", "\\phi", "\\upphi"]⟩,
  ⟨0x03D6, ["ϖ", "\\varpi", "\\upvarpi"]⟩,
  ⟨0x03DD, ["ϝ", "\\digamma", "\\updigamma"]⟩,
  ⟨0x03F0, ["ϰ", "\\varkappa", "\\upvarkappa"]⟩,
  ⟨0x03F1, ["ϱ", "\\varrho", "\\upvarrho"]⟩,
  ⟨0x03F5, ["ϵ", "\\epsilon", "\\upepsilon"]⟩]

def letterlikeSymbols : List SymbolRecord := [
  ⟨0x2016, ["‖", "\\Vert", "\\Vert", "\\|"]⟩,
  ⟨0x2020, ["†", "\\dagger", "\\dagger"]⟩,
  ⟨0x2021, ["‡", "\\ddagger", "\\ddagger"]⟩,
  ⟨0x2026, ["…", "\\ldots", "\\unicodeellipsis"]⟩,
  ⟨0x2032, ["′", "\\prime", "\\prime"]⟩,
  ⟨0x2033, ["″", "\\dprime"]⟩,
  ⟨0x2034, ["‴", "\\trprime"]⟩,
  ⟨0x2035, ["‵", "\\backprime", "\\backprime"]⟩,
  ⟨0x2057, ["⁗", "\\qprime"]⟩,
  ⟨0x210F, ["ℏ", "\\hbar", "\\hslash"]⟩,
  ⟨0x2111, ["ℑ", "\\Im", "\\Im"]⟩,
  ⟨0x2113, ["ℓ", "\\ell", "\\ell"]⟩,
  ⟨0x2118, ["℘", "\\wp", "\\wp"]⟩,
  ⟨0x211C, ["ℜ", "\\Re", "\\Re"]⟩,
  ⟨0x2127, ["℧", "\\mho", "\\mho"]⟩,
  ⟨0x2135, ["ℵ", "\\aleph", "\\aleph"]⟩,
  ⟨0x2136, ["ℶ", "\\beth", "\\beth"]⟩,
  ⟨0x2137, ["ℷ", "\\gimel", "\\gimel"]⟩]

def arrowSymbols : List SymbolRecord := [
  ⟨0x2190, ["←", "\\leftarrow", "\\leftarrow", "\\gets"]⟩,
  ⟨0x2191, ["↑", "\\uparrow", "\\uparrow"]⟩,
  ⟨0x2192, ["→", "\\rightarrow", "\\rightarrow", "\\to"]⟩,
  ⟨0x2193, ["↓", "\\downarrow", "\\downarrow"]⟩,
  ⟨0x2194, ["↔", "\\leftrightarrow", "\\leftrightarrow"]⟩,
  ⟨0x2195, ["↕", "\\updownarrow", "\\updownarrow"]⟩,
  ⟨0x2196, ["↖", "\\nwarrow", "\\nwarrow"]⟩,
  ⟨0x2197, ["↗", "\\nearrow", "\\nearrow"]⟩,
  ⟨0x2198, ["↘", "\\searrow", "\\searrow"]⟩,
  ⟨0x2199, ["↙", "\\swarrow", "\\swarrow"]⟩,
  ⟨0x21A6, ["↦", "\\mapsto", "\\mapsto"]⟩,
  ⟨0x21A9, ["↩", "\\hookleftarrow", "\\hookleftarrow"]⟩,
  ⟨0x21AA, ["↪", "\\hookrightarrow", "\\hookrightarrow"]⟩,
  ⟨0x21BC, ["↼", "\\leftharpoonup", "\\leftharpoonup"]⟩,
  ⟨0x21C0, ["⇀", "\\rightharpoonup", "\\rightharpoonup"]⟩,
  ⟨0x21CC, ["⇌", "\\rightleftharpoons", "\\rightleftharpoons"]⟩,
  ⟨0x21D0, ["⇐", "\\Leftarrow", "\\Leftarrow"]⟩,
  ⟨0x21D1, ["⇑", "\\Uparrow", "\\Uparrow"]⟩,
  ⟨0x21D2, ["⇒", "\\Rightarrow", "\\Rightarrow"]⟩,
  ⟨0x21D3, ["⇓", "\\Downarrow", "\\Downarrow"]⟩,
  ⟨0x21D4, ["⇔", "\\Leftrightarrow", "\\Leftrightarrow"]⟩,
  ⟨0x21D5, ["⇕", "\\Updownarrow", "\\Updownarrow"]⟩,
  ⟨0x27F5, ["⟵", "\\longleftarrow", "\\longleftarrow"]⟩,
  ⟨0x27F6, ["⟶", "\\longrightarrow", "\\longrightarrow"]⟩,
  ⟨0x27F7, ["⟷", "\\longleftrightarrow", "\\longleftrightarrow"]⟩,
  ⟨0x27F8, ["⟸", "\\Longleftarrow", "\\Longleftarrow"]⟩,
  ⟨0x27F9, ["⟹", "\\Longrightarrow", "\\Longrightarrow", "\\implies"]⟩,
  ⟨0x27FA, ["⟺", "\\Longleftrightarrow", "\\Longleftrightarrow", "\\iff"]⟩,
  ⟨0x27FC, ["⟼", "\\longmapsto", "\\longmapsto"]⟩]

def operatorSymbols : List SymbolRecord := [
  ⟨0x2200, ["∀", "\\forall", "\\forall"]⟩,
  ⟨0x2201, ["∁", "\\complement", "\\complement"]⟩,
  ⟨0x2202, ["∂", "\\partial", "\\partial"]⟩,
  ⟨0x2203, ["∃", "\\exists", "\\exists"]⟩,
  ⟨0x2204, ["∄", "\\nexists", "\\nexists"]⟩,
  ⟨0x2205, ["∅", "\\emptyset", "\\varnothing"]⟩,
  ⟨0x2207, ["∇", "\\nabla", "\\nabla"]⟩,
  ⟨0x2208, ["∈", "\\in", "\\in"]⟩,
  ⟨0x2209, ["∉", "\\notin", "\\notin", "\\nin"]⟩,
  ⟨0x220B, ["∋", "\\ni", "\\ni", "\\owns"]⟩,
  ⟨0x220F, ["∏", "\\prod", "\\prod"]⟩,
  ⟨0x2210, ["∐", "\\coprod", "\\coprod"]⟩,
  ⟨0x2211, ["∑", "\\sum", "\\sum"]⟩,
  ⟨0x2212, ["−", "\\minus"]⟩,
  ⟨0x2213, ["∓", "\\mp", "\\mp"]⟩,
  ⟨0x2216, ["∖", "\\setminus", "\\setminus"]⟩,
  ⟨0x2217, ["∗", "\\ast", "\\ast"]⟩,
  ⟨0x2218, ["∘", "\\circ", "\\vysmwhtcircle"]⟩,
  ⟨0x2219, ["∙", "\\bullet", "\\vysmblkcircle"]⟩,
  ⟨0x221A, ["√", "\\surd", "\\sqrt"]⟩,
  ⟨0x221D, ["∝", "\\propto", "\\propto"]⟩,
  ⟨0x221E, ["∞", "\\infty", "\\infty"]⟩,
  ⟨0x2220, ["∠", "\\angle", "\\angle"]⟩,
  ⟨0x2223, ["∣", "\\mid", "\\mid"]⟩,
  ⟨0x2224, ["∤", "\\nmid", "\\nmid"]⟩,
  ⟨0x2225, ["∥", "\\parallel", "\\parallel"]⟩,
  ⟨0x2226, ["∦", "\\nparallel", "\\nparallel"]⟩,
  ⟨0x2227, ["∧", "\\wedge", "\\wedge", "\\land"]⟩,
  ⟨0x2228, ["∨", "\\vee", "\\vee", "\\lor"]⟩,
  ⟨0x2229, ["∩", "\\cap", "\\cap"]⟩,
  ⟨0x222A, ["∪", "\\cup", "\\cup"]⟩,
  ⟨0x222B, ["∫", "\\int", "\\int"]⟩,
  ⟨0x222C, ["∬", "\\iint", "\\iint"]⟩,
  ⟨0x222D, ["∭", "\\iiint", "\\iiint"]⟩,
  ⟨0x222E, ["∮", "\\oint", "\\oint"]⟩,
  ⟨0x2240, ["≀", "\\wr", "\\wr"]⟩,
  ⟨0x223C, ["∼", "\\sim", "\\sim"]⟩,
  ⟨0x2243, ["≃", "\\simeq", "\\simeq"]⟩,
  ⟨0x2245, ["≅", "\\cong", "\\cong"]⟩,
  ⟨0x2248, ["≈", "\\approx", "\\approx"]⟩,
  ⟨0x224D, ["≍", "\\asymp", "\\asymp"]⟩,
  ⟨0x2250, ["≐", "\\doteq", "\\doteq"]⟩,
  ⟨0x2260, ["≠", "\\neq", "\\ne"]⟩,
  ⟨0x2261, ["≡", "\\equiv", "\\equiv"]⟩,
  ⟨0x2262, ["≢", "\\nequiv"]⟩,
  ⟨0x2264, ["≤", "\\leq", "\\leq", "\\le"]⟩,
  ⟨0x2265, ["≥", "\\geq", "\\geq", "\\ge"]⟩,
  ⟨0x2266, ["≦", "\\leqq", "\\leqq"]⟩,
  ⟨0x2267, ["≧", "\\geqq", "\\geqq"]⟩,
  ⟨0x2268, ["≨", "\\lneqq", "\\lneqq"]⟩,
  ⟨0x2269, ["≩", "\\gneqq", "\\gneqq"]⟩,
  ⟨0x226A, ["≪", "\\ll", "\\ll"]⟩,
  ⟨0x226B, ["≫", "\\gg", "\\gg"]⟩,
  ⟨0x226E, ["≮", "\\nless", "\\nless"]⟩,
  ⟨0x226F, ["≯", "\\ngtr", "\\ngtr"]⟩,
  ⟨0x2270, ["≰", "\\nleq", "\\nleq"]⟩,
  ⟨0x2271, ["≱", "\\ngeq", "\\ngeq"]⟩,
  ⟨0x227A, ["≺", "\\prec", "\\prec"]⟩,
  ⟨0x227B, ["≻", "\\succ", "\\succ"]⟩,
  ⟨0x2282, ["⊂", "\\subset", "\\subset"]⟩,
  ⟨0x2283, ["⊃", "\\supset", "\\supset"]⟩,
  ⟨0x2284, ["⊄", "\\nsubset"]⟩,
  ⟨0x2285, ["⊅", "\\nsupset"]⟩,
  ⟨0x2286, ["⊆", "\\subseteq", "\\subseteq"]⟩,
  ⟨0x2287, ["⊇", "\\supseteq", "\\supseteq"]⟩,
  ⟨0x2288, ["⊈", "\\nsubseteq", "\\nsubseteq"]⟩,
  ⟨0x2289, ["⊉", "\\nsupseteq", "\\nsupseteq"]⟩,
  ⟨0x228A, ["⊊", "\\subsetneq", "\\subsetneq"]⟩,
  ⟨0x228E, ["⊎", "\\uplus", "\\uplus"]⟩,
  ⟨0x2293, ["⊓", "\\sqcap", "\\sqcap"]⟩,
  ⟨0x2294, ["⊔", "\\sqcup", "\\sqcup"]⟩,
  ⟨0x2295, ["⊕", "\\oplus", "\\oplus"]⟩,
  ⟨0x2296, ["⊖", "\\ominus", "\\ominus"]⟩,
  ⟨0x2297, ["⊗", "\\otimes", "\\otimes"]⟩,
  ⟨0x2298, ["⊘", "\\oslash", "\\oslash"]⟩,
  ⟨0x2299, ["⊙", "\\odot", "\\odot"]⟩,
  ⟨0x22A2, ["⊢", "\\vdash", "\\vdash"]⟩,
  ⟨0x22A3, ["⊣", "\\dashv", "\\dashv"]⟩,
  ⟨0x22A4, ["⊤", "\\top", "\\top"]⟩,
  ⟨0x22A5, ["⊥", "\\bot", "\\bot"]⟩,
  ⟨0x22A8, ["⊨", "\\models", "\\vDash"]⟩,
  ⟨0x22BB, ["⊻", "\\veebar", "\\veebar"]⟩,
  ⟨0x22C0, ["⋀", "\\bigwedge", "\\bigwedge"]⟩,
  ⟨0x22C1, ["⋁", "\\bigvee", "\\bigvee"]⟩,
  ⟨0x22C2, ["⋂", "\\bigcap", "\\bigcap"]⟩,
  ⟨0x22C3, ["⋃", "\\bigcup", "\\bigcup"]⟩,
  ⟨0x22C4, ["⋄", "\\diamond", "\\diamond"]⟩,
  ⟨0x22C5, ["⋅", "\\cdot", "\\cdot"]⟩,
  ⟨0x22C6, ["⋆", "\\star", "\\star"]⟩,
  ⟨0x22C8, ["⋈", "\\bowtie", "\\bowtie"]⟩,
  ⟨0x22D8, ["⋘", "\\lll", "\\lll", "\\llless"]⟩,
  ⟨0x22D9, ["⋙", "\\ggg", "\\ggg"]⟩,
  ⟨0x22EE, ["⋮", "\\vdots", "\\vdots"]⟩,
  ⟨0x22EF, ["⋯", "\\cdots", "\\cdots"]⟩,
  ⟨0x22F1, ["⋱", "\\ddots", "\\ddots"]⟩]

def shapeSymbols : List SymbolRecord := [
  ⟨0x2308, ["⌈", "\\lceil", "\\lceil"]⟩,
  ⟨0x2309, ["⌉", "\\rceil", "\\rceil"]⟩,
  ⟨0x230A, ["⌊", "\\lfloor", "\\lfloor"]⟩,
  ⟨0x230B, ["⌋", "\\rfloor", "\\rfloor"]⟩,
  ⟨0x2322, ["⌢", "\\frown", "\\frown"]⟩,
  ⟨0x2323, ["⌣", "\\smile", "\\smile"]⟩,
  ⟨0x25A1, ["□", "\\square", "\\square"]⟩,
  ⟨0x25B3, ["△", "\\triangle", "\\bigtriangleup"]⟩,
  ⟨0x25EF, ["◯", "\\lgwhtcircle"]⟩,
  ⟨0x2660, ["♠", "\\spadesuit", "\\spadesuit"]⟩,
  ⟨0x2661, ["♡", "\\heartsuit", "\\heartsuit"]⟩,
  ⟨0x2662, ["♢", "\\diamondsuit", "\\diamondsuit"]⟩,
  ⟨0x2663, ["♣", "\\clubsuit", "\\clubsuit"]⟩,
  ⟨0x266D, ["♭", "\\flat", "\\flat"]⟩,
  ⟨0x266E, ["♮", "\\natural", "\\natural"]⟩,
  ⟨0x266F, ["♯", "\\sharp", "\\sharp"]⟩,
  ⟨0x2713, ["✓", "\\checkmark", "\\checkmark"]⟩,
  ⟨0x27C2, ["⟂", "\\perp", "\\perp"]⟩,
  ⟨0x27E8, ["⟨", "\\langle", "\\langle"]⟩,
  ⟨0x27E9, ["⟩", "\\rangle", "\\rangle"]⟩,
  ⟨0x2A00, ["⨀", "\\bigodot", "\\bigodot"]⟩,
  ⟨0x2A01, ["⨁", "\\bigoplus", "\\bigoplus"]⟩,
  ⟨0x2A02, ["⨂", "\\bigotimes", "\\bigotimes"]⟩,
  ⟨0x2A04, ["⨄", "\\biguplus", "\\biguplus"]⟩,
  ⟨0x2A06, ["⨆", "\\bigsqcup", "\\bigsqcup"]⟩,
  ⟨0x2A3F, ["⨿", "\\amalg", "\\amalg"]⟩,
  ⟨0x2AAF, ["⪯", "\\preceq", "\\preceq"]⟩,
  ⟨0x2AB0, ["⪰", "\\succeq", "\\succeq"]⟩,
  ⟨0x2ACB, ["⫋", "\\subsetneqq", "\\subsetneqq"]⟩,
  ⟨0x2ACC, ["⫌", "\\supsetneqq", "\\supsetneqq"]⟩]

/-- All records that are known without a symbol file. -/
def knownSymbols : List SymbolRecord :=
  basicSymbols ++ greekSymbols ++ letterlikeSymbols ++ arrowSymbols ++ operatorSymbols ++ shapeSymbols

/-- The table that is used where no symbol file is given. -/
def SymbolTable.known : SymbolTable := SymbolTable.ofRecords knownSymbols

end FormulaMarkup

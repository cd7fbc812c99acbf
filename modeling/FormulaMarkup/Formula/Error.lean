import FormulaMarkup.Source.Token

/-!
Errors of formulas: what is wrong, and the stretch of source that is to blame.
-/
namespace FormulaMarkup

/-- The commands that a pair of stretching delimiters is made of. -/
inductive FenceCommand where
  | left | right | middle
  deriving Repr, DecidableEq

inductive ScriptKind where
  | sub | sup
  deriving Repr, DecidableEq

inductive Cause where
  /-- A `\left` that is not closed, or a `\right` or `\middle` outside of such a pair. -/
  | unbalancedDelimiter (command : FenceCommand)
  /-- A second script of a kind on one base. -/
  | doubleScript (kind : ScriptKind)
  /-- A script with `\limits` on something that has no name. -/
  | limitsRequireOperator
  | missingNumerator
  | missingDenominator
  | invalidWidth (text : String)
  | missingEnd (environment : String)
  | invalidAlignment (text : String)
  /-- The end of the source where more is needed. -/
  | noTokens
  /-- The end of a group where an argument is needed. -/
  | missingArgument
  deriving Repr, DecidableEq

structure FormulaError where
  span : Span
  cause : Cause
  deriving Repr, DecidableEq

instance decEqExcept {ε α : Type} [DecidableEq ε] [DecidableEq α] : DecidableEq (Except ε α)
  | .error e, .error f => decidable_of_iff (e = f) (by simp)
  | .ok a, .ok b => decidable_of_iff (a = b) (by simp)
  | .error _, .ok _ => .isFalse (by simp)
  | .ok _, .error _ => .isFalse (by simp)

namespace FenceCommand

def written : FenceCommand → String
  | .left => "\\left"
  | .right => "\\right"
  | .middle => "\\middle"

end FenceCommand

namespace ScriptKind

def word : ScriptKind → String
  | .sub => "subscript"
  | .sup => "superscript"

def token : ScriptKind → String
  | .sub => "_"
  | .sup => "^"

end ScriptKind

namespace Cause

/-- The end of an environment as it is written. -/
def writtenEnd (environment : String) : String := "\\end\x7b" ++ environment ++ "\x7d"

def message : Cause → String
  | .unbalancedDelimiter .left => "Found \\left without a matching \\right."
  | .unbalancedDelimiter command =>
    "Found \"" ++ command.written ++ "\" outside of \\left ... \\right."
  | .doubleScript kind => "Double " ++ kind.word ++ "."
  | .limitsRequireOperator => "\\limits must follow a named operator like \\sum or \\lim."
  | .missingNumerator => "Fraction is missing its numerator."
  | .missingDenominator => "Fraction is missing its denominator."
  | .invalidWidth text => "Expected an integer width, got \"" ++ text ++ "\"."
  | .missingEnd environment => "Missing \"" ++ writtenEnd environment ++ "\"."
  | .invalidAlignment text => "Invalid column alignment \"" ++ text ++ "\"; expected l, c, r or |."
  | .noTokens => "Expected more input but reached the end."
  | .missingArgument => "Expected an argument but the group was closed."

/-- The note that stands beside the place of an error. -/
def label : Cause → String
  | .unbalancedDelimiter .left => "this \\left is never closed"
  | .unbalancedDelimiter command => "unmatched \"" ++ command.written ++ "\""
  | .doubleScript kind => "second " ++ kind.word
  | .limitsRequireOperator => "no operator before this"
  | .missingNumerator => "nothing before this"
  | .missingDenominator => "nothing after this"
  | .invalidWidth _ => "expected an integer here"
  | .missingEnd environment => "expected \"" ++ writtenEnd environment ++ "\" to close this"
  | .invalidAlignment _ => "invalid alignment"
  | .noTokens => "expected input here"
  | .missingArgument => "expected an argument here"

end Cause

namespace FormulaError

/-- An error as one line: the byte where it starts and its message. -/
def written (e : FormulaError) : String := toString e.span.start ++ ": " ++ e.cause.message

end FormulaError

end FormulaMarkup

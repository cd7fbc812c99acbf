import FormulaMarkup.Main
import FormulaMarkup.Proofs.Bytes.Lexing
import FormulaMarkup.Proofs.Bytes.Loading
import FormulaMarkup.Proofs.Bytes.Writing
import FormulaMarkup.Proofs.Conversion
import FormulaMarkup.Proofs.Markup.RoundTrip
import FormulaMarkup.Proofs.Parsing.Blame
import FormulaMarkup.Proofs.Parsing.Fences
import FormulaMarkup.Proofs.Parsing.Indices
import FormulaMarkup.Proofs.Parsing.Inverse
import FormulaMarkup.Proofs.Parsing.Kept
import FormulaMarkup.Proofs.Parsing.Protocol
import FormulaMarkup.Proofs.Parsing.ScriptArity
import FormulaMarkup.Proofs.Render.Arity
import FormulaMarkup.Proofs.Render.Composition
import FormulaMarkup.Proofs.Render.Indices
import FormulaMarkup.Proofs.Render.Letters
import FormulaMarkup.Proofs.Source.Layout
import FormulaMarkup.Report.Snippet
import FormulaMarkup.Proofs.Parsing.Coupling
import FormulaMarkup.Proofs.Parsing.Termination
import FormulaMarkup.Proofs.Parsing.PromptErrors
import FormulaMarkup.Proofs.Parsing.RawTexts
import FormulaMarkup.Proofs.Render.Boxes
import FormulaMarkup.Proofs.Render.Recursion
import FormulaMarkup.Proofs.Markup.Carried
import FormulaMarkup.Proofs.Render.GivenAttributes
import FormulaMarkup.Proofs.Render.TablePass
import FormulaMarkup.Proofs.Render.Rules
import FormulaMarkup.Proofs.Render.Fills
import FormulaMarkup.Proofs.Parsing.ArgumentCount
import FormulaMarkup.Proofs.Parsing.Locality
import FormulaMarkup.Proofs.Parsing.Places
import FormulaMarkup.Proofs.Parsing.ScriptOrder
import FormulaMarkup.Proofs.Parsing.ScriptRuns
import FormulaMarkup.Proofs.Parsing.PrimeCounts
import FormulaMarkup.Proofs.Parsing.Contained
import FormulaMarkup.Proofs.Parsing.Surroundings
import FormulaMarkup.Proofs.Parsing.Embedding
import FormulaMarkup.Proofs.Parsing.Enclosed
import FormulaMarkup.Proofs.Parsing.InfixGroups
import FormulaMarkup.Proofs.Source.LineEnds
import FormulaMarkup.Proofs.Source.Respacing
import FormulaMarkup.Proofs.Symbol.Loading
import FormulaMarkup.Proofs.Parsing.Negation
import FormulaMarkup.Proofs.Render.SkewWidths
import FormulaMarkup.Proofs.Bytes.Escaping
import FormulaMarkup.Proofs.Render.DollarSigns
import FormulaMarkup.Proofs.Report.Snippet
import FormulaMarkup.Proofs.Render.AttributeHistory

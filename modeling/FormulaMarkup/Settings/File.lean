import FormulaMarkup.Converter
import FormulaMarkup.Toml.Document

/-!
Settings files: TOML documents with the settings of a converter and the name of a symbol file. All
keys are optional, and other keys say nothing.
-/
namespace FormulaMarkup

inductive SettingsError where
  /-- The file cannot be read, or is no text. -/
  | unreadable
  /-- The text is no TOML, or a key has a value that it cannot have. -/
  | malformed
  deriving Repr, DecidableEq

def SettingsError.message : SettingsError → String
  | .unreadable => "I/O error"
  | .malformed => "TOML parsing error"

def PrettyPrint.word : PrettyPrint → String
  | .never => "never"
  | .always => "always"
  | .auto => "auto"

structure FileSettings where
  settings : Settings := {}
  /-- The symbol file that takes the place of the known symbols. -/
  symbols : Option String := none
  deriving Repr, DecidableEq

namespace FileSettings

open Toml (Value)

def prettyPrintNamed? (word : String) : Option PrettyPrint :=
  [PrettyPrint.never, .always, .auto].find? (·.word == word)

/-- A pretty print setting: a word, or a table in which the word is the one key, with nothing in
it. -/
def prettyPrint? : Value → Option PrettyPrint
  | .string word => prettyPrintNamed? word
  | .table _ [(word, .table _ [])] => prettyPrintNamed? word
  | _ => none

def natural? : Value → Option Nat
  | .integer n => if 0 ≤ n ∧ n < Int.ofNat (Nat.pow 2 64) then some n.toNat else none
  | _ => none

def text? : Value → Option String
  | .string text => some text
  | _ => none

/-- The value of a key as it is read; a key that is not there has a value of its own. -/
def valueOf {α : Type} (entries : Toml.Entries) (key : String) (read : Value → Option α)
    (missing : α) : Option α :=
  match entries.lookup key with
  | some value => read value
  | none => some missing

def ofEntries? (entries : Toml.Entries) : Option FileSettings := do
  let usual : FileSettings := {}
  let prettyPrint ← valueOf entries "pretty-print" prettyPrint? usual.settings.prettyPrint
  let indent ← valueOf entries "indent" natural? usual.settings.indent
  let namespaceUri ← valueOf entries "namespace" (text? · |>.map some) usual.settings.namespaceUri
  let symbols ← valueOf entries "symbols" (text? · |>.map some) usual.symbols
  return { settings := { prettyPrint, indent, namespaceUri }, symbols }

def ofText (text : String) : Except SettingsError FileSettings :=
  match (Toml.Document.entriesOf? text).bind ofEntries? with
  | some settings => .ok settings
  | none => .error .malformed

/-- The settings in a file, given its content if there is any. -/
def ofFile (content : Option ByteArray) : Except SettingsError FileSettings :=
  match content.bind String.fromUTF8? with
  | some text => ofText text
  | none => .error .unreadable

end FileSettings

end FormulaMarkup

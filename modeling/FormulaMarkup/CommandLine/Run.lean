import FormulaMarkup.CommandLine.Arguments
import FormulaMarkup.Settings.File

/-!
Runs of the command line: the settings file is read first, then the symbol file, then the formula,
and the first of them that is wrong ends the run. What the arguments say comes before what the
settings file says.
-/
namespace FormulaMarkup.CommandLine

structure World (m : Type → Type) where
  /-- The content of a file, if it can be read. -/
  file : String → m (Option ByteArray)
  input : m ByteArray

inductive Outcome where
  | output (text : String)
  | formulaError (source : String) (e : FormulaError)
  | settingsError (e : SettingsError)
  /-- A symbol file cannot be read, or the input is no text. -/
  | unreadable
  | usage

def version : String := "latex2mathml-cli 0.1.0"

def usageText : String :=
  "Usage: latex2mathml [-f FORMULA] [-i | -b] [--indent N] [--namespace URI] [-c FILE] " ++
    "[--symbols FILE]"

def Outcome.exitCode : Outcome → Nat
  | .output _ => 0
  | .formulaError .. => 1
  | .settingsError _ | .unreadable | .usage => 2

/-- The settings that arguments make of those of a file. -/
def combined (arguments : Arguments) (settings : Settings) : Settings :=
  let settings := match arguments.indent with
    | some indent =>
      { settings with indent, prettyPrint := if indent = 0 then .never else .always }
    | none => settings
  match arguments.namespaceUri with
  | some uri => { settings with namespaceUri := some uri }
  | none => settings

def settingsOf {m : Type → Type} [Monad m] (world : World m) (name : Option String) :
    m (Except SettingsError FileSettings) :=
  match name with
  | none => return .ok {}
  | some name => return FileSettings.ofFile (← world.file name)

/-- The symbols of the file that is named; nothing if it cannot be read. -/
def symbolsOf {m : Type → Type} [Monad m] (world : World m) (name : Option String) :
    m (Option SymbolTable) :=
  match name with
  | none => return some .known
  | some name => return ((← world.file name).bind String.fromUTF8?).map SymbolTable.ofText

/-- The source of the formula; nothing if the input is no text. -/
def sourceOf {m : Type → Type} [Monad m] (world : World m) (formula : Option String) :
    m (Option String) :=
  match formula with
  | some source => return some source
  | none => return String.fromUTF8? (← world.input)

def convert {m : Type → Type} [Monad m] (world : World m) (arguments : Arguments) : m Outcome := do
  match ← settingsOf world arguments.config with
  | .error e => return .settingsError e
  | .ok fromFile =>
    match ← symbolsOf world (arguments.symbols.or fromFile.symbols) with
    | none => return .unreadable
    | some symbols =>
      match ← sourceOf world arguments.formula with
      | none => return .unreadable
      | some source =>
        let converter : Converter := ⟨combined arguments fromFile.settings, symbols⟩
        let display : Display := if arguments.block then .block else .inline
        match converter.convert source display with
        | .ok text => return .output (text ++ "\n")
        | .error e => return .formulaError source e

def run {m : Type → Type} [Monad m] (world : World m) (arguments : List String) : m Outcome :=
  match read arguments with
  | .convert arguments => convert world arguments
  | .version => return .output (version ++ "\n")
  | .help => return .output (usageText ++ "\n")
  | .rejected => return .usage

end FormulaMarkup.CommandLine

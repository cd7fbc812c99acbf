/-!
Arguments of the command line. Arguments are read from left to right, and the first one that is not
as it should be rejects them all. A long option is written with two dashes and has its value behind
an equals sign or in the next argument. Short options have one dash; several can share it, and a
value can follow without a space.
-/
namespace FormulaMarkup.CommandLine

inductive ValueOption where
  | formula | indent | namespaceUri | config | symbols
  deriving Repr, DecidableEq

inductive Flag where
  | inline | block | version | help
  deriving Repr, DecidableEq

inductive OptionKind where
  | valued (option : ValueOption)
  | flag (flag : Flag)
  deriving Repr, DecidableEq

structure Arguments where
  formula : Option String := none
  inline : Bool := false
  block : Bool := false
  indent : Option Nat := none
  namespaceUri : Option String := none
  config : Option String := none
  symbols : Option String := none
  deriving Repr, DecidableEq

inductive Request where
  | convert (arguments : Arguments)
  | version
  | help
  | rejected
  deriving Repr, DecidableEq

def longNames : List (String × OptionKind) := [
  ("formula", .valued .formula), ("inline", .flag .inline), ("block", .flag .block),
  ("indent", .valued .indent), ("namespace", .valued .namespaceUri), ("config", .valued .config),
  ("symbols", .valued .symbols), ("version", .flag .version), ("help", .flag .help)]

def shortNames : List (Char × OptionKind) := [
  ('f', .valued .formula), ('i', .flag .inline), ('b', .flag .block), ('c', .valued .config),
  ('V', .flag .version), ('h', .flag .help)]

/-- A natural number of 64 bits, with at most one plus sign. -/
def natural? (text : String) : Option Nat :=
  let digits := match text.toList with
    | '+' :: digits => digits
    | digits => digits
  if digits.isEmpty || digits.any (! Char.isDigit ·) then none
  else
    let n := digits.foldl (fun n c => 10 * n + (c.toNat - '0'.toNat)) 0
    if n < Nat.pow 2 64 then some n else none

namespace Arguments

/-- Gives an option its value, which it may have only once. A file has a name. -/
def give (arguments : Arguments) (option : ValueOption) (value : String) : Option Arguments :=
  match option with
  | .formula =>
    if arguments.formula.isSome then none else some { arguments with formula := some value }
  | .indent =>
    if arguments.indent.isSome then none
    else (natural? value).map fun n => { arguments with indent := some n }
  | .namespaceUri =>
    if arguments.namespaceUri.isSome then none
    else some { arguments with namespaceUri := some value }
  | .config =>
    if arguments.config.isSome || value.isEmpty then none
    else some { arguments with config := some value }
  | .symbols =>
    if arguments.symbols.isSome || value.isEmpty then none
    else some { arguments with symbols := some value }

/-- All arguments have been read. A formula cannot be displayed in both ways. -/
def complete (arguments : Arguments) : Request :=
  if arguments.inline && arguments.block then .rejected else .convert arguments

end Arguments

inductive Effect where
  | taken (arguments : Arguments)
  /-- The next argument is the value of an option. -/
  | awaits (option : ValueOption) (arguments : Arguments)
  | settled (request : Request)
  deriving Repr

/-- Sets a flag, which may be set only once. -/
def raise (arguments : Arguments) : Flag → Effect
  | .inline =>
    if arguments.inline then .settled .rejected else .taken { arguments with inline := true }
  | .block =>
    if arguments.block then .settled .rejected else .taken { arguments with block := true }
  | .version => .settled .version
  | .help => .settled .help

/-- Gives an option a value that stands in the same argument. -/
def giveHere (arguments : Arguments) (option : ValueOption) (value : List Char) : Effect :=
  match arguments.give option (String.ofList value) with
  | some arguments => .taken arguments
  | none => .settled .rejected

def long (arguments : Arguments) (text : List Char) : Effect :=
  let name := text.takeWhile (· ≠ '=')
  match longNames.lookup (String.ofList name), text.dropWhile (· ≠ '=') with
  | some (.valued option), [] => .awaits option arguments
  | some (.valued option), _ :: value => giveHere arguments option value
  | some (.flag flag), [] => raise arguments flag
  | _, _ => .settled .rejected

def short (arguments : Arguments) : List Char → Effect
  | [] => .taken arguments
  | name :: rest =>
    match shortNames.lookup name with
    | some (.valued option) =>
      match rest with
      | [] => .awaits option arguments
      | '=' :: value => giveHere arguments option value
      | value => giveHere arguments option value
    | some (.flag flag) =>
      match raise arguments flag with
      | .taken arguments => short arguments rest
      | effect => effect
    | none => .settled .rejected

/-- What an argument does that is no value of an option before it. -/
def effect (arguments : Arguments) (text : String) : Effect :=
  match text.toList with
  | '-' :: '-' :: rest => long arguments rest
  | '-' :: first :: rest => short arguments (first :: rest)
  | _ => .settled .rejected

/-- Whether an argument can be a value: options cannot, but a dash by itself can. -/
def isValue (text : String) : Bool :=
  match text.toList with
  | '-' :: _ :: _ => false
  | _ => true

/-- Reads the arguments that are left. Behind two dashes alone there are no options. -/
def readFrom (arguments : Arguments) : List String → Request
  | [] => arguments.complete
  | text :: rest =>
    if text == "--" then if rest.isEmpty then arguments.complete else .rejected
    else
      match effect arguments text with
      | .taken arguments => readFrom arguments rest
      | .settled request => request
      | .awaits option arguments =>
        match rest with
        | [] => .rejected
        | value :: rest =>
          if isValue value then
            match arguments.give option value with
            | some arguments => readFrom arguments rest
            | none => .rejected
          else .rejected

/-- What the arguments of the command line ask for. -/
def read (texts : List String) : Request := readFrom {} texts

end FormulaMarkup.CommandLine

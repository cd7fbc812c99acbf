/-!
Readers of text, as TOML documents need them. A reader takes characters from the front of a text and
gives a value, or finds that the text is not as it should be.
-/
namespace FormulaMarkup.Toml

abbrev TextReader := StateT (List Char) Option

namespace TextReader

/-- Whether the rest of the text begins with given characters. -/
def startsWith (start : String) : TextReader Bool := return start.toList.isPrefixOf (← get)

/-- Takes the given characters if the text begins with them, and says whether it does. -/
def accept (start : String) : TextReader Bool := do
  if ← startsWith start then
    modify (List.drop start.toList.length)
    return true
  else return false

def expect (start : String) : TextReader Unit := do
  if ← accept start then return () else failure

def character : TextReader Char := do
  match ← get with
  | [] => failure
  | c :: rest =>
    set rest
    return c

/-- Takes all characters at the front that are of a class. -/
def takeAll (p : Char → Bool) : TextReader (List Char) := do
  let cs ← get
  set (cs.dropWhile p)
  return cs.takeWhile p

/-- Repeats a step, which goes on or ends with a value, no more than a number of times. -/
def repeated {α β : Type} (step : α → TextReader (α ⊕ β)) : Nat → α → TextReader β
  | 0, _ => failure
  | count + 1, a => do
    match ← step a with
    | .inl a => repeated step count a
    | .inr b => return b

/-- Repeats a step that takes at least one character whenever it goes on. -/
def loop {α β : Type} (step : α → TextReader (α ⊕ β)) (a : α) : TextReader β := do
  repeated step ((← get).length + 1) a

/-! ## What is skipped -/

/-- Control characters, which only strings with escapes can hold. -/
def isControl (c : Char) : Bool := (c.toNat < 0x20 && c != '\t') || c.toNat == 0x7F

def blanks : TextReader Unit := do
  let _ ← takeAll fun c => c = ' ' || c = '\t'

/-- Takes a line end as it is written, if there is one here. -/
def lineEnd? : TextReader (Option String) := do
  if ← accept "\n" then return some "\n"
  else if ← accept "\r\n" then return some "\r\n"
  else return none

/-- Skips a line end, if there is one here, and says whether there is. -/
def lineEnd : TextReader Bool := return (← lineEnd?).isSome

def comment : TextReader Unit := do
  if ← accept "#" then
    let _ ← takeAll (! isControl ·)
    return ()

def gap : TextReader Unit :=
  loop (fun () => do
    blanks
    comment
    return if ← lineEnd then .inl () else .inr ()) ()

/-- Skips the rest of a line, which holds at most a comment. -/
def restOfLine : TextReader Unit := do
  blanks
  comment
  if (← get).isEmpty then return ()
  else if ← lineEnd then return ()
  else failure

end TextReader

end FormulaMarkup.Toml

import LenSyntax.Command.Flag

/-! The usage and the help of the command, set for a screen of eighty columns. -/
namespace LenSyntax.Command

/-- No line of the usage is longer. -/
def lineWidth : Nat := 78

/-- The name of the argument that no flag announces. -/
def inputName : Text := "input"

/-- A value behind a flag's spelling. -/
def withPlaceholder (f : Flag) (spelling : Text) : Text :=
  match f.placeholder? with
  | some value => spelling ++ " " ++ value
  | none => spelling

/-- A flag in the usage, in its shortest spelling. -/
def usagePart (f : Flag) : Text :=
  "[" ++ withPlaceholder f (f.spellings.headD f.name) ++ "]"

/-- Fills lines with parts; `line` is the line under way. -/
def fill (width : Nat) (line : Text) : List Text → List Text
  | [] => [line]
  | part :: parts =>
    if width < line.length + 1 + part.length ∧ line ≠ [] then line :: fill width part parts
    else fill width (if line = [] then part else line ++ " " ++ part) parts

def usage : Text :=
  let start : Text := "usage: " ++ programName ++ " "
  let lines := fill (lineWidth - start.length) [] (Flag.all.map usagePart) ++ [inputName]
  start ++ Text.joinWith ("\n" ++ Text.spaces start.length) lines ++ "\n"

def description : Text := "Tokenize and parse len source, printing token and AST dumps"

/-- All spellings of a flag, as the help shows them. -/
def helpName (f : Flag) : Text :=
  Text.joinWith ", " (f.spellings.map (withPlaceholder f))

/-- The width of the first column of the help. -/
def helpWidth : Nat := (Flag.all.map fun f => (helpName f).length).foldl max inputName.length

def helpLine (name purpose : Text) : Text :=
  "  " ++ name.padRight helpWidth ++ "  " ++ purpose ++ "\n"

def help : Text :=
  usage ++ "\n" ++ description ++ "\n\npositional arguments:\n" ++
    helpLine inputName "Input .len file, or '-' for stdin" ++ "\noptions:\n" ++
    Flag.all.flatMap fun f => helpLine (helpName f) f.purpose

end LenSyntax.Command

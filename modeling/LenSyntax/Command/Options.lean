import LenSyntax.Command.Arguments
import LenSyntax.Files.Basic
import LenSyntax.Settings

/-! The options of a run: the standard ones, then those of a settings file, then those of the
arguments. -/
namespace LenSyntax.Command

/-- `input` is nothing for the standard input. -/
structure Options where
  input : Option Path
  showTokens : Bool
  showTree : Bool
  json : Bool
  brief : Bool
  config : Config
  watch : Bool
  verbose : Bool

/-- What the command does not answer for: a settings file that is not UTF-8, holds an integer with
too many digits or is nested too deeply, a depth without a value, and a path that no file can
have. -/
inductive Escape where
  | undecodable
  | oversizedInteger (digits : Nat)
  | nestedTooDeeply
  | depthWithoutValue
  | path (fault : PathFault)
  deriving DecidableEq, Repr

def Escape.message : Escape → Text
  | undecodable => "the settings are not UTF-8"
  | oversizedInteger digits =>
    "Exceeds the limit (" ++ Text.ofNat Toml.longestInteger ++
      " digits) for integer string conversion: value has " ++ Text.ofNat digits ++
      " digits; use sys.set_int_max_str_digits() to increase the limit"
  | nestedTooDeeply => "the settings are nested too deeply"
  | depthWithoutValue => "the depth has no value"
  | path .unencodable => "the path cannot be encoded"
  | path .null => "embedded null byte"

/-- Why there are no options: a settings file that is no document or that cannot be reached, or
something that escapes. -/
inductive OptionsFault where
  | document (text : Text) (failure : Toml.Failure)
  | unreachable (e : FileError) (p : Path)
  | escape (e : Escape)

/-- The settings file that is looked for beside the input. -/
def settingsName : Text := "lenfront.toml"

/-- The settings that the bytes of a file hold. -/
def readSettings (capacity : Toml.Capacity) (content : Bytes) : Except OptionsFault Toml.Table :=
  match Utf8.decode? content with
  | none => .error (.escape .undecodable)
  | some text =>
    let text := Toml.unixLines text
    if capacity.isExceeded text then .error (.escape .nestedTooDeeply)
    else
      match Toml.document text with
      | .ok table => .ok table
      | .error e =>
        match e.fault with
        | .tooManyDigits count => .error (.escape (.oversizedInteger count))
        | _ => .error (.document text e)

/-- Settings need not be there, but what is there has to be readable. At a path that no file can
have there are none. -/
def loadSettings (capacity : Toml.Capacity) (files : Files) (p : Path) :
    Except OptionsFault Toml.Table :=
  if p.fault?.isSome then .ok []
  else
    match files p with
    | .ok (.file content _) => readSettings capacity content
    | .ok (.locked e _) => .error (.unreachable e p)
    | .ok (.folder _) => .ok []
    | .error e => if e.isAbsence then .ok [] else .error (.unreachable e p)

namespace Options

/-- The path that an argument means; a hyphen is the standard input. -/
def inputPath (argument : Text) : Option Path :=
  if argument = "-" then none else some (.ofText argument)

/-- Where the settings are: at a given path, or beside the input. -/
def settingsPath (a : Arguments) : Path :=
  match a.config with
  | some (c :: t) => .ofText (c :: t)
  | _ => (((inputPath a.input).map Path.parent).getD (.ofText [])).child settingsName

/-- The options that arguments and settings make. Without a section asked for, both are shown. -/
def ofArguments (capacity : Toml.Capacity) (files : Files) (a : Arguments) :
    Except OptionsFault Options := do
  let settings := Config.ofTable (← loadSettings capacity files (settingsPath a))
  let depth : Int ← match a.maxDepth with
    | none => .ok settings.maxDepth
    | some (some n) => .ok n
    | some none => .error (.escape .depthWithoutValue)
  .ok {
    input := inputPath a.input
    showTokens := a.tokens || !a.ast
    showTree := a.ast || !a.tokens
    json := a.json
    brief := a.brief
    config := .make (settings.keepComments && !a.noComments) depth
    watch := a.watch
    verbose := a.verbose }

end Options
end LenSyntax.Command

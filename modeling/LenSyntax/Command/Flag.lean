import LenSyntax.Config
import LenSyntax.Text.Basic

/-! The flags of the command, how they are spelled and what is said of them. -/
namespace LenSyntax.Command

/-- The name by which the command speaks of itself. -/
def programName : Text := "lenfront"

inductive Flag where
  | help
  | tokens
  | ast
  | json
  | brief
  | config
  | noComments
  | maxDepth
  | watch
  | verbose
  deriving DecidableEq, Repr

namespace Flag

/-- In the order in which they are listed. -/
def all : List Flag :=
  [help, tokens, ast, json, brief, config, noComments, maxDepth, watch, verbose]

/-- The letter behind a single hyphen. -/
def letter? : Flag → Option CodePoint
  | help => some 'h'
  | verbose => some 'v'
  | _ => none

/-- The name with two hyphens. -/
def name : Flag → Text
  | help => "--help"
  | tokens => "--tokens"
  | ast => "--ast"
  | json => "--json"
  | brief => "--brief"
  | config => "--config"
  | noComments => "--no-comments"
  | maxDepth => "--max-depth"
  | watch => "--watch"
  | verbose => "--verbose"

/-- What stands for the value of a flag that takes one. -/
def placeholder? : Flag → Option Text
  | config => some "FILE"
  | maxDepth => some "N"
  | _ => none

def takesValue (f : Flag) : Bool := f.placeholder?.isSome

def spellings (f : Flag) : List Text :=
  match f.letter? with
  | some c => [['-', c], f.name]
  | none => [f.name]

/-- All spellings, as messages show them. -/
def label (f : Flag) : Text := Text.joinWith "/" f.spellings

def purpose : Flag → Text
  | help => "show this help message and exit"
  | tokens => "Print the token dump"
  | ast => "Print the AST dump"
  | json => "Print the result as JSON"
  | brief => "Print one line per diagnostic instead of source snippets"
  | config => "Config file (default: auto-discover lenfront.toml)"
  | noComments => "Discard comments instead of emitting COMMENT tokens"
  | maxDepth =>
    "Maximum expression nesting depth (default: 64, at most " ++ Text.ofNat Config.depthLimit ++ ")"
  | watch => "Watch for changes and re-run"
  | verbose => "Enable debug logging"

/-- The flag whose letter stands behind a single hyphen. -/
def ofLetter? (c : CodePoint) : Option Flag := all.find? (·.letter? = some c)

/-- The flag with a spelling. -/
def ofSpelling? (t : Text) : Option Flag := all.find? (t ∈ ·.spellings)

/-- The flags whose long name starts with a text. -/
def startingWith (t : Text) : List Flag := all.filter (t.isPrefixOf ·.name)

end Flag
end LenSyntax.Command

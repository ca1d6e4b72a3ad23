import LenSyntax.Command.Usage
import LenSyntax.Text.Integer
import LenSyntax.Text.Quoted

/-! The arguments of the command. Each word is first taken for itself as an argument or a flag; then
flags take the values behind them. A long flag may be shortened as long as it alone is meant. -/
namespace LenSyntax.Command

inductive DepthFault where
  | notInteger (text : Text)
  | notPositive (text : Text)
  deriving DecidableEq

def DepthFault.message : DepthFault → Text
  | notInteger text => "invalid integer: " ++ text
  | notPositive text => "must be positive: " ++ text

/-- A number above zero. -/
def depth (t : Text) : Except DepthFault Nat :=
  match t.integer? with
  | none => .error (.notInteger t)
  | some n => if 0 < n then .ok n.toNat else .error (.notPositive t)

inductive UsageFault where
  | ambiguous (word : Text) (flags : List Flag)
  | missingValue (f : Flag)
  | ignoredValue (f : Flag) (value : Text)
  | badDepth (fault : DepthFault)
  | missingInput
  | unrecognized (words : List Text)
  deriving DecidableEq

def UsageFault.message : UsageFault → Text
  | ambiguous word flags =>
    "ambiguous option: " ++ word ++ " could match " ++ Text.joinWith ", " (flags.map Flag.name)
  | missingValue f => "argument " ++ f.label ++ ": expected one argument"
  | ignoredValue f value =>
    "argument " ++ f.label ++ ": ignored explicit argument " ++ value.quoted
  | badDepth fault => "argument " ++ Flag.label .maxDepth ++ ": " ++ fault.message
  | missingInput => "the following arguments are required: " ++ inputName
  | unrecognized words => "unrecognized arguments: " ++ Text.joinWith " " words

/-- What a word is by itself. The value of a flag may be attached to it. -/
inductive Word where
  | argument (t : Text)
  | separator
  | flag (f : Flag) (short : Bool) (attached : Option Text)
  | unknown (t : Text)

/-- Whether a text is a hyphen and a number, with or without a point. A line feed may follow. -/
def looksNegative (t : Text) : Bool :=
  let isDecimal (c : CodePoint) : Bool := c.decimalValue?.isSome
  match t with
  | [] => false
  | c :: u =>
    let u := if u.getLast? = some (CodePoint.ofChar '\n') then u.dropLast else u
    let behind := u.dropWhile isDecimal
    c = '-' &&
      ((!u.isEmpty && behind.isEmpty) ||
        (behind.head? = some (CodePoint.ofChar '.') && 1 < behind.length &&
          behind.tail.all isDecimal))

/-- A text up to its first equals sign, and what is behind the sign. -/
def splitEquals (t : Text) : Text × Option Text :=
  (t.takeWhile (· ≠ CodePoint.ofChar '='), (t.dropWhile (· ≠ CodePoint.ofChar '=')).tail?)

/-- A word that starts with a hyphen and is no flag as it stands. -/
def unlisted (t : Text) : Word :=
  if looksNegative t ∨ CodePoint.ofChar ' ' ∈ t then .argument t else .unknown t

/-- What a word in front of a separator is. -/
def classify (t : Text) : Except UsageFault Word :=
  match t with
  | [] => .ok (.argument t)
  | [_] => .ok (.argument t)
  | a :: b :: rest =>
    if a ≠ '-' then .ok (.argument t)
    else
      let (spelling, attached) := splitEquals t
      let short : Bool := b ≠ '-'
      match Flag.ofSpelling? t, Flag.ofSpelling? spelling with
      | some f, _ => .ok (.flag f short none)
      | none, some f => .ok (.flag f short attached)
      | none, none =>
        if short then
          match Flag.ofLetter? b with
          | some f => .ok (.flag f true (some rest))
          | none => .ok (unlisted t)
        else
          match Flag.startingWith spelling with
          | [] => .ok (unlisted t)
          | [f] => .ok (.flag f false attached)
          | flags => .error (.ambiguous t flags)

/-- What words are. All behind a separator are arguments. -/
def classifyAll : List Text → Except UsageFault (List Word)
  | [] => .ok []
  | t :: ts =>
    if t = "--" then .ok (.separator :: ts.map .argument)
    else do
      let word ← classify t
      let words ← classifyAll ts
      .ok (word :: words)

/-- What the command has been asked for. A value that is only the separator counts as none, which
for the depth is not the same as no flag. -/
structure Arguments where
  input : Text
  tokens : Bool
  ast : Bool
  json : Bool
  brief : Bool
  config : Option Text
  noComments : Bool
  maxDepth : Option (Option Nat)
  watch : Bool
  verbose : Bool
  deriving DecidableEq

/-- Why no arguments come out. -/
inductive Stop where
  | help
  | fault (f : UsageFault)

namespace Arguments

def start : Arguments := ⟨[], false, false, false, false, none, false, none, false, false⟩

/-- A flag without a value. -/
def raise (a : Arguments) : Flag → Except Stop Arguments
  | .help => .error .help
  | .tokens => .ok { a with tokens := true }
  | .ast => .ok { a with ast := true }
  | .json => .ok { a with json := true }
  | .brief => .ok { a with brief := true }
  | .noComments => .ok { a with noComments := true }
  | .watch => .ok { a with watch := true }
  | .verbose => .ok { a with verbose := true }
  | .config => .ok a
  | .maxDepth => .ok a

/-- A flag with a value; `none` is the separator in its place. -/
def set (a : Arguments) (f : Flag) (value : Option Text) : Except Stop Arguments :=
  match f, value with
  | .config, value => .ok { a with config := value }
  | .maxDepth, none => .ok { a with maxDepth := some none }
  | .maxDepth, some value =>
    match depth value with
    | .ok n => .ok { a with maxDepth := some (some n) }
    | .error fault => .error (.fault (.badDepth fault))
  | f, _ => a.raise f

/-- Flags written as letters behind the one hyphen of `f`; each letter but the last attaches the
others to it. -/
def cluster (f : Flag) : Text → Except UsageFault (List Flag)
  | [] => .ok [f]
  | c :: t =>
    match Flag.ofLetter? c with
    | some g => (cluster g t).map (f :: ·)
    | none => .error (.ignoredValue f (c :: t))

/-- A flag with something attached to it. -/
def attach (a : Arguments) (f : Flag) (short : Bool) (attached : Text) : Except Stop Arguments :=
  if f.takesValue then a.set f (if attached = "--" then none else some attached)
  else if short ∧ attached ≠ [] then
    match cluster f attached with
    | .ok flags => flags.foldlM raise a
    | .error fault => .error (.fault fault)
  else .error (.fault (.ignoredValue f attached))

/-- Takes words one after another; `input` is the argument that no flag announces, and what is left
over is gathered. A separator next to the input belongs to it. -/
def take (a : Arguments) (input : Option Text) (extra : List Text) :
    List Word → Except Stop (Arguments × Option Text × List Text)
  | [] => .ok (a, input, extra.reverse)
  | .unknown t :: ws => take a input (t :: extra) ws
  | .flag f short (some attached) :: ws => do
    let a ← a.attach f short attached
    take a input extra ws
  | .flag f _ none :: ws =>
    if f.takesValue then
      match ws with
      | .argument t :: ws => do
        let a ← a.set f (some t)
        take a input extra ws
      | _ => .error (.fault (.missingValue f))
    else do
      let a ← a.raise f
      take a input extra ws
  | .argument t :: ws =>
    match input, ws with
    | none, .separator :: ws => take a (some t) extra ws
    | none, ws => take a (some t) extra ws
    | some _, ws => take a input (t :: extra) ws
  | .separator :: ws =>
    match input, ws with
    | none, .argument t :: ws => take a (some t) extra ws
    | _, ws => take a input ("--" :: extra) ws

/-- The arguments that words stand for. -/
def ofWords (words : List Text) : Except Stop Arguments := do
  let classified ← (classifyAll words).mapError .fault
  let (a, input, extra) ← take start none [] classified
  match input, extra with
  | none, _ => .error (.fault .missingInput)
  | some input, [] => .ok { a with input }
  | some _, extra => .error (.fault (.unrecognized extra))

end Arguments
end LenSyntax.Command

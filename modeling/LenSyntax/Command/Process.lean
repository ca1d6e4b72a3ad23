import LenSyntax.Command.Options
import LenSyntax.Diagnostic.Snippet
import LenSyntax.Report.Document

/-! What the command prints about a source. -/
namespace LenSyntax.Command

/-- What goes to the standard output and to the standard error. -/
@[ext] structure Output where
  out : Text
  err : Text
  deriving DecidableEq

namespace Output

def empty : Output := ⟨[], []⟩

def append (a b : Output) : Output := ⟨a.out ++ b.out, a.err ++ b.err⟩

instance : Append Output := ⟨append⟩

/-- A line on the standard error. -/
def complaint (message : Text) : Output := ⟨[], "error: " ++ message ++ "\n"⟩

/-- A line on the standard error, if details are asked for. -/
def detail (o : Options) (place message : Text) : Output :=
  ⟨[], if o.verbose then "DEBUG " ++ programName ++ "." ++ place ++ ": " ++ message ++ "\n" else []⟩

end Output

/-- The sections that are shown, each below its title. -/
def sections (o : Options) (r : Report) : Text :=
  let tokens : Text := if o.showTokens then "== tokens ==\n" ++ r.tokenDump else []
  let tree : Text := if o.showTree then "== ast ==\n" ++ r.treeDump else []
  tokens ++ tree

/-- The name of the input in messages. -/
def inputLabel (o : Options) : Text := (o.input.map Path.text).getD "<stdin>"

/-- What is wrong, in short lines or in snippets. -/
def complaints (o : Options) (source : Text) (ds : List Diagnostic) : Text :=
  if o.brief then Diagnostics.brief ds
  else Text.unlines (Diagnostics.snippets source (inputLabel o) ds)

def countsLine (c : Counts) : Text :=
  "run: " ++ Text.ofNat c.codePoints ++ " chars, " ++ Text.ofNat c.tokens ++ " tokens, " ++
    Text.ofNat c.nodes ++ " nodes, " ++ Text.ofNat c.diagnostics ++ " diagnostics"

/-- What is printed about a report. -/
def present (o : Options) (source : Text) (r : Report) : Output :=
  let details := (r.counts?.map fun c => Output.detail o "frontend" (countsLine c)).getD .empty
  details ++
    if o.json then ⟨(r.json o.showTokens o.showTree).text ++ "\n", []⟩
    else ⟨sections o r, complaints o source r.diagnostics⟩

/-- What is printed about a source, and whether it has errors. -/
def process (o : Options) (source : Text) : Output × Bool :=
  let r := Report.of o.config source
  (present o source r, Diagnostics.hasErrors r.diagnostics)

/-- The source that an input holds. -/
def readInput (o : Options) (files : Files) (standardInput : Bytes) : Except FileError Text :=
  match o.input with
  | none => .ok (Utf8.decode standardInput)
  | some p => (files.read p).map Utf8.decode

/-- The complaint about an input that cannot be read. -/
def unreadable (o : Options) (e : FileError) : Output :=
  .complaint (e.message (o.input.getD (.ofText [])))

end LenSyntax.Command

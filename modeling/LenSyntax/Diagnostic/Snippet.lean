import LenSyntax.Diagnostic.Basic
import LenSyntax.Text.Lines

/-! Source snippets: a diagnostic with the line on which it starts and carets under its text. -/
namespace LenSyntax

namespace Diagnostic

/-- The line of some lines on which a diagnostic starts, without a carriage return at its end. -/
def shownLine (lines : Array Text) (d : Diagnostic) : Text :=
  (Text.lineOf lines d.span.start.line).dropFinalReturn

/-- Carets reach to the end of the span, or of the shown line when the span ends on another line;
there is always one. -/
def caretCount (shown : Text) (d : Diagnostic) : Nat :=
  if d.span.stop.line = d.span.start.line then
    max 1 (d.span.stop.column - d.span.start.column).toNat
  else max 1 (shown.length + 1 - d.span.start.column).toNat

/-- The five lines of a snippet that shows a line. -/
def snippetLines (shown filename : Text) (d : Diagnostic) : List Text :=
  let number := Text.ofInt d.span.start.line
  let gutter := Text.spaces (number.length + 1)
  let carets : Text := List.replicate (d.caretCount shown) '^'
  [d.severity.name ++ ": " ++ d.message,
    gutter ++ "--> " ++ filename ++ ":" ++ d.span.start.label,
    gutter ++ "|",
    number ++ " | " ++ shown,
    gutter ++ "| " ++ Text.spaces (d.span.start.column - 1).toNat ++ carets]

def snippetOf (lines : Array Text) (filename : Text) (d : Diagnostic) : Text :=
  Text.joinWith "\n" (d.snippetLines (d.shownLine lines) filename)

/-- The snippet of a diagnostic in a source. -/
def snippet (source filename : Text) (d : Diagnostic) : Text :=
  d.snippetOf source.lines.toArray filename

/-- The file name of a source that comes without one. -/
def defaultFilename : Text := "input.len"

end Diagnostic

/-- The snippets of diagnostics in one source, which is cut into lines once. -/
def Diagnostics.snippets (source filename : Text) (ds : List Diagnostic) : List Text :=
  let lines := source.lines.toArray
  ds.map (·.snippetOf lines filename)

theorem Diagnostics.snippets_eq (source filename : Text) (ds : List Diagnostic) :
    snippets source filename ds = ds.map (·.snippet source filename) := rfl

end LenSyntax

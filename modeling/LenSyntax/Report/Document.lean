import LenSyntax.Json
import LenSyntax.Report.Basic

/-! Reports as JSON documents. -/
namespace LenSyntax

def Position.json (p : Position) : Json :=
  .object [("line", .number p.line), ("column", .number p.column)]

def Diagnostic.json (d : Diagnostic) : Json :=
  .object [("severity", .string d.severity.name), ("message", .string d.message),
    ("start", d.span.start.json), ("end", d.span.stop.json)]

/-- A report with the dumps that are asked for. -/
def Report.json (withTokens withTree : Bool) (r : Report) : Json :=
  let tokens : List (Text × Json) := if withTokens then [("tokens", .string r.tokenDump)] else []
  let tree : List (Text × Json) := if withTree then [("ast", .string r.treeDump)] else []
  let found : List (Text × Json) := [("diagnostics", .array (r.diagnostics.map Diagnostic.json))]
  .object (tokens ++ tree ++ found)

end LenSyntax

import LenSyntax.Report.Basic
import LenSyntax.Text.Utf8

/-! Sources as they are given: as texts, or as bytes that are read as UTF-8. -/
namespace LenSyntax

inductive Input where
  | text (t : Text)
  | bytes (b : Bytes)

namespace Input

/-- The source that is given; what is ill-formed in bytes is replaced. -/
def decoded : Input → Text
  | text t => t
  | bytes b => Utf8.decode b

/-- The report of what is given. -/
def report (stages : Stages) (config : Config) (i : Input) : Report :=
  .ofStages stages config i.decoded

/-- The token dump of what is given, which is empty if a stage fails. -/
def tokenDump (stages : Stages) (config : Config) (i : Input) : Text :=
  stages.tokenDump config i.decoded

end Input
end LenSyntax

import LenSyntax.Config
import LenSyntax.Text.Utf8
import LenSyntax.Toml.Document

/-! Settings: options from a TOML document. Names without a meaning and values of the wrong type are
passed over. -/
namespace LenSyntax

namespace Toml.Table

def table? (t : Table) (name : Text) : Option Table :=
  match t.get? name with
  | some (.table u) => some u
  | _ => none

def boolean? (t : Table) (name : Text) : Option Bool :=
  match t.get? name with
  | some (.boolean b) => some b
  | _ => none

def integer? (t : Table) (name : Text) : Option Int :=
  match t.get? name with
  | some (.integer n) => some n
  | _ => none

end Toml.Table

/-- The options that a document sets; the others keep their standard values. -/
def Config.ofTable (t : Toml.Table) : Config :=
  let keepComments := (t.table? "lexer").bind (·.boolean? "keep_comments")
  let maxDepth := ((t.table? "parser").bind (·.integer? "max_depth")).filter (0 < ·)
  .make (keepComments.getD standard.keepComments) (maxDepth.getD standard.maxDepth)

end LenSyntax

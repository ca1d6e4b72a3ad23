import LenSyntax.Arena.Walk
import LenSyntax.Text.Quoted

/-! The dump of a tree: a line for each node that a walk meets, indented by its depth. Below a
certain depth the indentation stays and the depth is written out, so that a dump has a size linear
in the number of its nodes. -/
namespace LenSyntax

def NodeKind.label : NodeKind → Text
  | .program => "Program"
  | .binding => "Binding"
  | .number => "Number"
  | .string => "String"
  | .boolean => "Boolean"
  | .identifier => "Identifier"
  | .unary => "Unary"
  | .binary => "Binary"
  | .call => "Call"
  | .group => "Group"
  | .lambda => "Lambda"
  | .product => "Product"
  | .field => "Field"
  | .error => "Error!"

/-- Strings are shown in quotes; programs, calls, groups and products show no text. -/
def ArenaNode.label (n : ArenaNode) : Text :=
  match n.kind with
  | .program | .call | .group | .product => n.kind.label
  | .string => n.kind.label ++ " " ++ n.text.quoted
  | _ => n.kind.label ++ " " ++ n.text

namespace Dump

/-- The largest depth that indentation shows. -/
def deepestIndent : Nat := 32

def indent (depth : Nat) : Text :=
  if depth ≤ deepestIndent then Text.spaces (2 * depth)
  else Text.spaces (2 * deepestIndent) ++ "[" ++ Text.ofNat depth ++ "] "

def visit (v : Visit) : Text := indent v.depth ++ v.node.label ++ " [" ++ v.node.span.label ++ "]"

def visits (vs : List Visit) : Text := Text.unlines (vs.map visit)

/-- The dump of what a walk from the root meets. -/
def arena? (a : Arena) : Option Text := a.walk?.map visits

end Dump
end LenSyntax

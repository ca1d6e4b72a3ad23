import LenSyntax.Text.Quoted
import LenSyntax.Token.Basic

/-! The dump of tokens: a line for each, with its span, its kind, its source text and, where it is
another text, its value. -/
namespace LenSyntax

def Token.dumpLine (t : Token) : Text :=
  let value : Text := if t.value = t.raw then [] else " -> " ++ t.value.quoted
  t.span.label.padRight 11 ++ " " ++ t.kind.name.padRight 10 ++ " " ++ t.raw.quoted ++ value

def Dump.tokens (ts : List Token) : Text := Text.unlines (ts.map Token.dumpLine)

end LenSyntax

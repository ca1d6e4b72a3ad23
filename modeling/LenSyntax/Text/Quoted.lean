import LenSyntax.Text.Basic
import LenSyntax.Text.Printable

/-! Quoted texts. A text stands between single quotes, or between double quotes when it holds a
single quote and no double quote. Backslashes, the quote in use and all that is not printable are
escaped, so a quoted text is printable and can be read back. -/
namespace LenSyntax.Text

/-- Escape by two, four or eight hexadecimal digits, the fewest that hold the number. -/
def numericEscape (c : CodePoint) : Text :=
  if c.val < 0x100 then "\\x" ++ hex 2 c.val
  else if c.val < 0x10000 then "\\u" ++ hex 4 c.val
  else "\\U" ++ hex 8 c.val

def escape (quote c : CodePoint) : Text :=
  if c = '\\' ∨ c = quote then ['\\', c]
  else if c = '\n' then "\\n"
  else if c = '\r' then "\\r"
  else if c = '\t' then "\\t"
  else if c.isPrintable then [c]
  else numericEscape c

def quoteFor (t : Text) : CodePoint :=
  if CodePoint.ofChar '\'' ∈ t ∧ CodePoint.ofChar '"' ∉ t then '"' else '\''

def quoted (t : Text) : Text :=
  quoteFor t :: t.flatMap (escape (quoteFor t)) ++ [quoteFor t]

end LenSyntax.Text

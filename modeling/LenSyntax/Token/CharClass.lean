import LenSyntax.Text.Blank
import LenSyntax.Text.Letter
import LenSyntax.Text.Numeral
import LenSyntax.Token.Symbol

/-! Classes of code points by the part that they can play in a token. -/
namespace LenSyntax.CodePoint

/-- The ASCII digits. -/
def isDigit (c : CodePoint) : Bool := 0x30 ≤ c.val && c.val ≤ 0x39

/-- Letters and the underscore start a word. -/
def startsWord (c : CodePoint) : Bool := c.isLetter || c = '_'

/-- Letters, numerals and the underscore go on with a word. -/
def continuesWord (c : CodePoint) : Bool := c.isLetter || c.isNumeral || c = '_'

def isHexDigit (c : CodePoint) : Bool := c.hexValue?.isSome

theorem continuesWord_of_startsWord {c : CodePoint} (h : c.startsWord) : c.continuesWord := by
  simp only [startsWord, continuesWord, Bool.or_eq_true] at *
  exact h.imp_left .inl

end LenSyntax.CodePoint

import LenSyntax.Text.Basic
import LenSyntax.Text.Blank
import LenSyntax.Text.Numeral

/-! Integers written in text: a sign and decimal digits of any script, with single underscores
between digits and blanks around it all. The ASCII separators, which are blanks, are none here. -/
namespace LenSyntax.Text

def isPadding (c : CodePoint) : Bool := c.isBlank && !(0x1C ≤ c.val && c.val ≤ 0x1F)

/-- A text without the padding at its ends. -/
def strip (t : Text) : Text :=
  (((t.dropWhile isPadding).reverse).dropWhile isPadding).reverse

/-- The values of digits, none of which may be missing around an underscore. -/
def digitValues? : Text → Option (List Nat)
  | [] => none
  | [c] => c.decimalValue?.map ([·])
  | c :: d :: t => do
    let value ← c.decimalValue?
    let others ← if d = '_' then digitValues? t else digitValues? (d :: t)
    some (value :: others)

/-- No integer has more digits than this. -/
def longestInteger : Nat := 4300

/-- The integer that a text spells. -/
def integer? (t : Text) : Option Int := do
  let (negative, digits) := match strip t with
    | [] => (false, [])
    | c :: u => if c = '-' then (true, u) else if c = '+' then (false, u) else (false, c :: u)
  let values ← digitValues? digits
  if longestInteger < values.length then none
  else
    let n : Nat := values.foldl (10 * · + ·) 0
    some (if negative then -n else n)

end LenSyntax.Text

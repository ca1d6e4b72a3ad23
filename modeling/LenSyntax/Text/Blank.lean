import LenSyntax.Text.Ranges

/-! Blanks: the code points of category Zs and those whose bidirectional class is WS, B or S. -/
namespace LenSyntax

def Ranges.blanks : Ranges :=
  [(0x9, 0xD), (0x1C, 0x20), (0x85, 0x85), (0xA0, 0xA0), (0x1680, 0x1680), (0x2000, 0x200A),
    (0x2028, 0x2029), (0x202F, 0x202F), (0x205F, 0x205F), (0x3000, 0x3000)]

def CodePoint.isBlank (c : CodePoint) : Bool := Ranges.blanks.contains c.val

end LenSyntax

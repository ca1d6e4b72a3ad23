import LenSyntax.Text.Basic

/-! The lines of a text. Only a line feed ends a line, so a text has one line more than it has
line feeds. -/
namespace LenSyntax.Text

def linesAux (line : Text) : Text → List Text
  | [] => [line.reverse]
  | c :: t => if c = '\n' then line.reverse :: linesAux [] t else linesAux (c :: line) t

/-- The pieces between line feeds. -/
def lines (t : Text) : List Text := linesAux [] t

theorem linesAux_length (line t : Text) :
    (linesAux line t).length = t.count (CodePoint.ofChar '\n') + 1 := by
  induction t generalizing line with
  | nil => rfl
  | cons c t ih =>
    by_cases h : c = CodePoint.ofChar '\n' <;> simp [linesAux, h, ih]

theorem lines_length (t : Text) : t.lines.length = t.count (CodePoint.ofChar '\n') + 1 :=
  linesAux_length [] t

/-- The line with a 1-based number; a text has nothing on a line that it does not reach. -/
def line (t : Text) (number : Int) : Text :=
  if number ≤ 0 then [] else t.lines[(number - 1).toNat]?.getD []

/-- The line with a 1-based number among lines that are at hand. -/
def lineOf (lines : Array Text) (number : Int) : Text :=
  if number ≤ 0 then [] else lines[(number - 1).toNat]?.getD []

theorem lineOf_lines (t : Text) (number : Int) : lineOf t.lines.toArray number = t.line number := by
  simp [lineOf, line]

/-- A text without one carriage return at its end. -/
def dropFinalReturn (t : Text) : Text :=
  if t.getLast? = some (CodePoint.ofChar '\r') then t.dropLast else t

end LenSyntax.Text

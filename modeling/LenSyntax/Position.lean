import LenSyntax.Text.Basic

/-! Places in a source: a 1-based line and column and a 0-based offset, all counted in code points.
Only a line feed starts a new line. Tokens and diagnostics can be given with places of their own,
which lie anywhere, so the three are integers. -/
namespace LenSyntax

@[ext] structure Position where
  line : Int
  column : Int
  offset : Int
  deriving DecidableEq, Repr

namespace Position

def origin : Position := ⟨1, 1, 0⟩

instance : Inhabited Position := ⟨origin⟩

/-- The position behind one code point. -/
def advance (p : Position) (c : CodePoint) : Position :=
  if c = '\n' then ⟨p.line + 1, 1, p.offset + 1⟩ else ⟨p.line, p.column + 1, p.offset + 1⟩

/-- The position behind a text. -/
def after (p : Position) (t : Text) : Position := t.foldl advance p

@[simp] theorem after_nil (p : Position) : p.after [] = p := rfl

@[simp] theorem after_cons (p : Position) (c : CodePoint) (t : Text) :
    p.after (c :: t) = (p.advance c).after t := rfl

theorem after_append (p : Position) (s t : Text) : p.after (s ++ t) = (p.after s).after t :=
  List.foldl_append

@[simp] theorem advance_offset (p : Position) (c : CodePoint) :
    (p.advance c).offset = p.offset + 1 := by
  unfold advance; split <;> rfl

@[simp] theorem after_offset (p : Position) (t : Text) :
    (p.after t).offset = p.offset + t.length := by
  induction t generalizing p with
  | nil => exact (Int.add_zero _).symm
  | cons c t ih =>
    simp only [after_cons, ih, advance_offset, List.length_cons]
    omega

/-- The position behind a whole text, read off from its line feeds: each one starts a line, and the
columns count from the last one, or from the place in front of the text if there is none. -/
def behind (t : Text) : Position :=
  let lastLineFeed : Int := t.length - 1 - t.reverse.idxOf (CodePoint.ofChar '\n')
  ⟨t.count (CodePoint.ofChar '\n') + 1, t.length - lastLineFeed, t.length⟩

/-- Line and column with a colon between them. -/
def label (p : Position) : Text := Text.ofInt p.line ++ ":" ++ Text.ofInt p.column

end Position

/-- A half-open range of a source. -/
@[ext] structure Span where
  start : Position
  stop : Position
  deriving DecidableEq, Repr

namespace Span

instance : Inhabited Span := ⟨⟨default, default⟩⟩

/-- The empty range at a position. -/
def point (p : Position) : Span := ⟨p, p⟩

/-- From the earlier start to the later end; of two equal ones the first start and the last end. -/
def cover (first last : Span) : Span where
  start := if first.start.offset ≤ last.start.offset then first.start else last.start
  stop := if first.stop.offset ≤ last.stop.offset then last.stop else first.stop

/-- Start and end labels with a hyphen between them. -/
def label (s : Span) : Text := s.start.label ++ "-" ++ s.stop.label

end Span
end LenSyntax

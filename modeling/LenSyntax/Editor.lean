import LenSyntax.Report.Basic
import LenSyntax.Text.Lines
import LenSyntax.Text.Utf16

/-! Diagnostics as editors take them: 0-based lines and characters, the latter counted in UTF-16
code units. -/
namespace LenSyntax.Editor

@[ext] structure Place where
  line : Nat
  character : Nat
  deriving DecidableEq, Repr

/-- Which lines and characters, counted from 0, editors refuse, and with what message. A line in
front of the first one is refused. -/
structure Validator where
  refusal? : (line : Int) → (character : Nat) → Option Text
  isSome_of_neg : ∀ line character, line < 0 → (refusal? line character).isSome

namespace Validator

/-- Whether no line and no character up to a limit is refused. -/
def Takes (v : Validator) (limit : Nat) : Prop :=
  ∀ line character : Nat, line ≤ limit → character ≤ limit → v.refusal? line character = none

/-- What is said of a number beyond the largest one. -/
def outside (largest : Nat) (name : Text) (number : Int) : Text :=
  "Position." ++ name ++ " should be in range [0:" ++ Text.ofNat largest ++ "], but was " ++
    Text.ofInt number ++ "."

/-- Editors that take numbers up to a largest one. -/
def upTo (largest : Nat) : Validator where
  refusal? line character :=
    if 0 ≤ line ∧ line ≤ largest then
      if character ≤ largest then none else some (outside largest "character" character)
    else some (outside largest "line" line)
  isSome_of_neg line character h := by
    rw [if_neg (by omega)]
    rfl

theorem takes_upTo (largest : Nat) : (upTo largest).Takes largest := by
  intro line character hline hcharacter
  simp only [upTo]
  rw [if_pos (by omega), if_pos hcharacter]

end Validator

structure Problem where
  start : Place
  stop : Place
  severity : Nat
  message : Text
  source : Text
  deriving DecidableEq

/-- The name under which problems are shown. -/
def sourceName : Text := "lenfront"

def severityCode : Severity → Nat
  | .error => 1
  | .warning => 2

/-- The lines of a text, each as the widths of its starts. -/
structure Layout where
  widths : Array (Array Nat)

def Layout.ofText (text : Text) : Layout := ⟨(text.lines.map Text.widths).toArray⟩

/-- The width of a line, whose number counts from 0, in front of a 1-based column; all of the line
if it has no such column. -/
def Layout.character (l : Layout) (line column : Nat) : Nat :=
  match l.widths[line]? with
  | none => 0
  | some widths => widths[min (column - 1) (widths.size - 1)]?.getD 0

theorem Layout.character_ofText (text : Text) (line column : Nat) :
    (Layout.ofText text).character line column =
      Text.width16 ((text.line (line + 1)).take (column - 1)) := by
  unfold character ofText Text.line
  rw [List.getElem?_toArray, List.getElem?_map, if_neg (by omega), Int.add_sub_cancel,
    Int.toNat_natCast]
  cases h : text.lines[line]? with
  | none => simp
  | some shown =>
    have hmin : min (column - 1) (shown.widths.size - 1) ≤ shown.length := by
      rw [Text.widths_size]; omega
    simp only [Option.map_some, Option.getD_some, Text.widths_getElem? _ hmin]
    rw [Text.widths_size, Nat.add_sub_cancel]
    congr 1
    rcases Nat.le_total (column - 1) shown.length with hc | hc
    · rw [Nat.min_eq_left hc]
    · rw [Nat.min_eq_right hc, List.take_length, List.take_of_length_le hc]

/-- Columns beyond the end of a line, or on a line that is not there, move to the last unit. -/
def place (v : Validator) (l : Layout) (p : Position) : Except Text Place :=
  let line := p.line - 1
  let character := if 0 ≤ line then l.character line.toNat p.column.toNat else 0
  match v.refusal? line character with
  | none => .ok ⟨line.toNat, character⟩
  | some message => .error message

def problem (v : Validator) (l : Layout) (d : Diagnostic) : Except Text Problem := do
  let start ← place v l d.span.start
  let stop ← place v l d.span.stop
  .ok ⟨start, stop, severityCode d.severity, d.message, sourceName⟩

/-- Diagnostics of a text, in their order. -/
def problemsOf (v : Validator) (text : Text) (ds : List Diagnostic) :
    Except Text (List Problem) :=
  ds.mapM (problem v (.ofText text))

/-- What is shown for the text of a document after it is opened or changed. -/
def problems (v : Validator) (text : Text) : Except Text (List Problem) :=
  problemsOf v text (text.diagnostics .standard)

end LenSyntax.Editor

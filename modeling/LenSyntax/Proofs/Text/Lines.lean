import LenSyntax.Proofs.Token.Coherence
import LenSyntax.Text.Lines
import Mathlib.Algebra.GroupWithZero.Nat

/-! Lines and offsets. A position that agrees with a text stands on a line of it, and its column is
the way from the start of that line to its offset. -/
namespace LenSyntax

namespace Text

theorem line_of_getElem?_lines {t shown : Text} {line : Nat} (h : t.lines[line]? = some shown) :
    t.line (line + 1) = shown := by
  rw [Text.line, if_neg (by omega), Int.add_sub_cancel, Int.toNat_natCast, h, Option.getD_some]

/-- The number of code points in front of a line, whose number counts from 0. -/
def lineStart (t : Text) (line : Nat) : Nat := ((t.lines.take line).map (·.length + 1)).sum

theorem lineStart_succ {t shown : Text} {line : Nat} (h : t.lines[line]? = some shown) :
    t.lineStart (line + 1) = t.lineStart line + shown.length + 1 := by
  obtain ⟨hlt, rfl⟩ := List.getElem?_eq_some_iff.1 h
  rw [lineStart, lineStart, List.take_succ_eq_append_getElem hlt, List.map_append,
    List.sum_append_nat]
  simp [Nat.add_assoc]

theorem lineStart_mono (t : Text) {line other : Nat} (h : line ≤ other) :
    t.lineStart line ≤ t.lineStart other := by
  obtain ⟨more, rfl⟩ := Nat.exists_eq_add_of_le h
  rw [lineStart, lineStart, List.take_add, List.map_append, List.sum_append_nat]
  exact Nat.le_add_right _ _

/-- A line ends in front of all that come behind it. -/
theorem lineStart_add_length_lt {t shown : Text} {line other : Nat}
    (h : t.lines[line]? = some shown) (ho : line < other) :
    t.lineStart line + shown.length < t.lineStart other := by
  have hstep := lineStart_succ h
  have hmono := t.lineStart_mono ho
  simp only [Nat.succ_eq_add_one] at hmono
  omega

theorem exists_linesAux (line t : Text) :
    ∃ head tail, linesAux line t = (line.reverse ++ head) :: tail := by
  induction t generalizing line with
  | nil => exact ⟨[], [], by simp [linesAux]⟩
  | cons c t ih =>
    by_cases hc : c = CodePoint.ofChar '\n'
    · exact ⟨[], linesAux [] t, by simp [linesAux, hc]⟩
    · obtain ⟨head, tail, h⟩ := ih (c :: line)
      exact ⟨c :: head, tail, by simp [linesAux, hc, h]⟩

/-- Behind a text that comes first, the lines of a text go on with the last one of the first text,
which `last` holds backwards. -/
theorem exists_lines_append (s : Text) :
    ∃ above last, (∀ t, lines (s ++ t) = above ++ linesAux last t) ∧
      above.length = s.count (CodePoint.ofChar '\n') ∧ last.length = s.lastLineLength ∧
      (above.map (·.length + 1)).sum + last.length = s.length := by
  induction s using List.reverseRecOn with
  | nil => exact ⟨[], [], by simp [lines], rfl, rfl, rfl⟩
  | append_singleton s c ih =>
    obtain ⟨above, last, hlines, habove, hlast, hsum⟩ := ih
    by_cases hc : c = CodePoint.ofChar '\n'
    · refine ⟨above ++ [last.reverse], [], ?_, ?_, ?_, ?_⟩
      · intro t
        simp [hlines, linesAux, hc]
      · simp [habove, hc]
      · simp [lastLineLength_concat, hc]
      · rw [List.map_append, List.sum_append_nat, List.length_append]
        simp only [List.map_cons, List.map_nil, List.sum_singleton, List.length_reverse,
          List.length_nil, List.length_singleton]
        omega
    · refine ⟨above, c :: last, ?_, ?_, ?_, ?_⟩
      · intro t
        simp [hlines, linesAux, hc]
      · simp [habove, hc]
      · simp [lastLineLength_concat, hc, hlast]
      · rw [List.length_append, List.length_singleton, List.length_cons]
        omega

end Text

/-- Where a position stands that agrees with a text. -/
theorem Position.Coherent.exists_line {text : Text} {p : Position} (h : p.Coherent text) :
    ∃ (line column : Nat) (shown : Text), p.line = line + 1 ∧ p.column = column + 1 ∧
      text.lines[line]? = some shown ∧ column ≤ shown.length ∧
      p.offset = text.lineStart line + column := by
  have hnonneg := h.offset_nonneg
  have hle := h.offset_le
  obtain ⟨above, last, hlines, habove, hlast, hsum⟩ :=
    Text.exists_lines_append (text.before p.offset)
  obtain ⟨head, tail, hrest⟩ := Text.exists_linesAux last (text.drop p.offset.toNat)
  have htext : text.lines = above ++ (last.reverse ++ head) :: tail := by
    rw [← hrest, ← hlines, Text.before, List.take_append_drop]
  have hlength : (text.before p.offset).length = p.offset.toNat := by
    rw [Text.before, List.length_take]
    omega
  refine ⟨above.length, last.length, last.reverse ++ head, ?_, ?_, ?_, ?_, ?_⟩
  · rw [h.line_eq, habove]
    omega
  · rw [h.column_eq, hlast]
    omega
  · rw [htext, List.getElem?_append_right (Nat.le_refl _), Nat.sub_self]
    rfl
  · simp
  · have hstart : text.lineStart above.length = (above.map (·.length + 1)).sum := by
      rw [Text.lineStart, htext, List.take_left]
    omega

end LenSyntax

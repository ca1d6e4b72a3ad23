import LenSyntax.Proofs.Text.Delimiting
import LenSyntax.Proofs.Text.Lines

/-! The line on which a place stands, as a part of the text around it. -/
namespace LenSyntax

namespace Text

/-- `source.LineAt offset front line`: the line on which an offset stands is `line`, and it stands
behind `front`. It reaches from one line feed, or the start of the source, to the next one, or to
the end. -/
structure LineAt (source : Text) (offset : Int) (front line : Text) : Prop where
  split : ∃ behind, source = front ++ (line ++ behind) ∧
    ∀ c ∈ behind.head?, c = CodePoint.ofChar '\n'
  starts : ∀ c ∈ front.getLast?, c = CodePoint.ofChar '\n'
  lineFeed : CodePoint.ofChar '\n' ∉ line
  front_le : front.length ≤ offset
  le_stop : offset ≤ (front ++ line).length

theorem lines_of_notMem {t : Text} (h : CodePoint.ofChar '\n' ∉ t) : t.lines = [t] := by
  have hlines := linesAux_append h [] []
  rw [List.append_nil, List.append_nil] at hlines
  rw [lines, hlines, linesAux, List.reverse_reverse]

theorem lines_append_cons {w : Text} (hw : CodePoint.ofChar '\n' ∉ w) (t : Text) :
    (w ++ CodePoint.ofChar '\n' :: t).lines = w :: t.lines := by
  rw [lines, linesAux_append hw, linesAux, if_pos rfl, List.append_nil, List.reverse_reverse,
    lines]

/-- Texts with line feeds between them are the lines of the whole. -/
theorem lines_joinWith {ts : List Text} (hne : ts ≠ [])
    (h : ∀ t ∈ ts, CodePoint.ofChar '\n' ∉ t) : (joinWith "\n" ts).lines = ts := by
  induction ts with
  | nil => exact absurd rfl hne
  | cons t ts ih =>
    rw [List.forall_mem_cons] at h
    cases ts with
    | nil => exact lines_of_notMem h.1
    | cons u ts =>
      have hjoin : joinWith "\n" (t :: u :: ts) =
          t ++ CodePoint.ofChar '\n' :: joinWith "\n" (u :: ts) := List.append_assoc t _ _
      rw [hjoin, lines_append_cons h.1, ih (List.cons_ne_nil u ts) h.2]

/-- A line stands behind all that are above it. -/
theorem exists_of_getElem?_lines {t line : Text} {number : Nat} (h : t.lines[number]? = some line) :
    ∃ front behind, t = front ++ (line ++ behind) ∧ front.length = t.lineStart number ∧
      (∀ c ∈ front.getLast?, c = CodePoint.ofChar '\n') ∧ CodePoint.ofChar '\n' ∉ line ∧
      ∀ c ∈ behind.head?, c = CodePoint.ofChar '\n' := by
  induction number generalizing t with
  | zero =>
    by_cases hmem : CodePoint.ofChar '\n' ∈ t
    · obtain ⟨w, u, rfl, hw⟩ := List.eq_append_cons_of_mem hmem
      rw [lines_append_cons hw] at h
      obtain rfl := Option.some.inj h
      exact ⟨[], _, rfl, rfl, by simp, hw, by simp⟩
    · rw [lines_of_notMem hmem] at h
      obtain rfl := Option.some.inj h
      exact ⟨[], [], by simp, rfl, by simp, hmem, by simp⟩
  | succ number ih =>
    by_cases hmem : CodePoint.ofChar '\n' ∈ t
    · obtain ⟨w, u, rfl, hw⟩ := List.eq_append_cons_of_mem hmem
      have hlines := lines_append_cons hw u
      rw [hlines, List.getElem?_cons_succ] at h
      obtain ⟨front, behind, rfl, hlength, hfront, hline, hbehind⟩ := ih h
      refine ⟨w ++ CodePoint.ofChar '\n' :: front, behind, by simp, ?_, ?_, hline, hbehind⟩
      · rw [lineStart, hlines, List.take_succ_cons, List.map_cons, List.sum_cons, ← lineStart,
          List.length_append, List.length_cons, hlength]
        omega
      · -- the last code point is that of `front`, or the line feed if `front` is empty
        intro c hc
        cases front with
        | nil => simpa [eq_comm] using hc
        | cons d front =>
          rw [List.getLast?_append, List.getLast?_cons_cons] at hc
          exact hfront c (by simpa [List.getLast?_cons] using hc)
    · rw [lines_of_notMem hmem] at h
      cases h

/-- What stands between two places of a line, seen from its start. -/
theorem slice_of_front (front line behind : Text) (start : Nat) {stop : Nat}
    (h : stop ≤ line.length) :
    (front ++ (line ++ behind)).slice ((front.length : Int) + start) (front.length + stop) =
      (line.drop start).take (stop - start) := by
  have hnat (n : Nat) : ((front.length : Int) + n).toNat = front.length + n := by omega
  rw [slice, hnat, hnat, List.take_length_add_append, List.drop_length_add_append,
    List.take_append_of_le_length h, List.drop_take]

end Text

/-- `s.OnLine source front line`: a span starts on the line that stands behind `front`. If it ends
there too, its columns tell how long it is, and else it ends behind the line. -/
structure Span.OnLine (source : Text) (s : Span) (front line : Text) : Prop where
  standing : source.LineAt s.start.offset front line
  line_eq : source.line s.start.line = line
  column_eq : s.start.column = s.start.offset - front.length + 1
  length_eq : s.stop.line = s.start.line →
    s.stop.column - s.start.column = s.stop.offset - s.start.offset
  lt_stop : s.stop.line ≠ s.start.line → ((front ++ line).length : Int) < s.stop.offset

/-- A span that agrees with a source starts on a line of it. -/
theorem Span.Coherent.exists_onLine {source : Text} {s : Span} (h : s.Coherent source) :
    ∃ front line, s.OnLine source front line := by
  obtain ⟨number, column, line, hnumber, hcolumn, hline, hle, hoffset⟩ := h.start.exists_line
  obtain ⟨number', column', line', hnumber', hcolumn', hline', hle', hoffset'⟩ :=
    h.stop.exists_line
  obtain ⟨front, behind, hsource, hlength, hfront, hlineFeed, hbehind⟩ :=
    Text.exists_of_getElem?_lines hline
  have hordered := h.ordered
  refine ⟨front, line, ⟨⟨behind, hsource, hbehind⟩, hfront, hlineFeed, ?_, ?_⟩, ?_, ?_, ?_, ?_⟩
  · omega
  · rw [List.length_append]
    omega
  · rw [hnumber]
    exact Text.line_of_getElem?_lines hline
  · omega
  · intro hsame
    obtain rfl : number' = number := by omega
    omega
  · intro hother
    rw [List.length_append]
    -- the last line of a span is not above its first one
    obtain hlt | rfl | hgt := Nat.lt_trichotomy number number'
    · have hbelow := Text.lineStart_add_length_lt hline hlt
      omega
    · omega
    · have habove := Text.lineStart_add_length_lt hline' hgt
      omega

end LenSyntax

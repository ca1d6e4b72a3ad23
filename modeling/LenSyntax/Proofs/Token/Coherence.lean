import LenSyntax.Proofs.Token.Tiling
import Mathlib.Data.List.Induction

/-! Positions agree with the source: the line and the column of each are those that its offset has
there. -/
namespace LenSyntax

namespace Text

/-- The part of a text in front of an offset. -/
def before (t : Text) (offset : Int) : Text := t.take offset.toNat

/-- How many code points of a text stand behind its last line feed. -/
def lastLineLength (t : Text) : Nat :=
  (t.reverse.takeWhile (· ≠ CodePoint.ofChar '\n')).length

theorem before_append (t behind : Text) : (t ++ behind).before t.length = t := by
  rw [before, Int.toNat_natCast, List.take_left]

theorem lastLineLength_concat (t : Text) (c : CodePoint) :
    (t ++ [c]).lastLineLength = if c = '\n' then 0 else t.lastLineLength + 1 := by
  by_cases hc : c = CodePoint.ofChar '\n' <;> simp [lastLineLength, hc]

theorem lastLineLength_eq_idxOf (t : Text) :
    t.lastLineLength = t.reverse.idxOf (CodePoint.ofChar '\n') := by
  unfold lastLineLength
  induction t.reverse with
  | nil => rfl
  | cons c t ih => 
    by_cases hc : c = CodePoint.ofChar '\n'
    · simp [hc]
    · have hne : (c == CodePoint.ofChar '\n') = false := by simpa using hc
      simpa [List.idxOf_cons, hc, hne] using ih

end Text

/-- `p.Coherent source`: the offset of `p` lies in the source, the line is one more than the number
of line feeds in front of it, and the column is one more than the number of code points between the
last of these and the offset. -/
structure Position.Coherent (source : Text) (p : Position) : Prop where
  offset_nonneg : 0 ≤ p.offset
  offset_le : p.offset ≤ source.length
  line_eq : p.line = 1 + (source.before p.offset).count (CodePoint.ofChar '\n')
  column_eq : p.column = 1 + (source.before p.offset).lastLineLength

structure Span.Coherent (source : Text) (s : Span) : Prop where
  start : s.start.Coherent source
  stop : s.stop.Coherent source
  ordered : s.start.offset ≤ s.stop.offset

namespace Position

/-- The offset determines the position. -/
theorem Coherent.eq_of_offset_eq {source : Text} {p q : Position} (hp : p.Coherent source)
    (hq : q.Coherent source) (h : p.offset = q.offset) : p = q := by
  ext
  · rw [hp.line_eq, hq.line_eq, h]
  · rw [hp.column_eq, hq.column_eq, h]
  · exact h

theorem origin_after_line (t : Text) :
    (origin.after t).line = 1 + t.count (CodePoint.ofChar '\n') := by
  induction t using List.reverseRecOn with
  | nil => rfl
  | append_singleton t c ih =>
    rw [after_append, after_cons, after_nil, advance, List.count_append, List.count_singleton]
    by_cases hc : c = CodePoint.ofChar '\n'
    · simp [hc, ih]
      omega
    · simp [hc, ih]

theorem origin_after_column (t : Text) : (origin.after t).column = 1 + t.lastLineLength := by
  induction t using List.reverseRecOn with
  | nil => rfl
  | append_singleton t c ih =>
    rw [after_append, after_cons, after_nil, advance, Text.lastLineLength_concat]
    by_cases hc : c = CodePoint.ofChar '\n'
    · simp [hc]
    · simp [hc, ih]
      omega

/-- What advances code point by code point stays coherent. -/
theorem coherent_after (t behind : Text) : (origin.after t).Coherent (t ++ behind) := by
  have hoffset : (origin.after t).offset = t.length := by simp [origin]
  constructor
  · omega
  · rw [hoffset, List.length_append]
    omega
  · rw [hoffset, Text.before_append, origin_after_line]
  · rw [hoffset, Text.before_append, origin_after_column]

theorem coherent_behind (source : Text) : (behind source).Coherent source := by
  have hbefore := Text.before_append source []
  rw [List.append_nil] at hbefore
  constructor
  · simp [behind]
  · simp [behind]
  · simp only [behind, hbefore]
    omega
  · simp only [behind, hbefore, Text.lastLineLength_eq_idxOf]
    omega

/-- What is read off at once is where all steps together lead. -/
theorem behind_eq_after (source : Text) : behind source = origin.after source := by
  have hafter := coherent_after source []
  rw [List.append_nil] at hafter
  exact (coherent_behind source).eq_of_offset_eq hafter (by simp [behind, origin])

end Position

namespace Span

/-- The span of a part of a source. -/
theorem coherent_after (t raw behind : Text) :
    (Span.mk (Position.origin.after t) (Position.origin.after (t ++ raw))).Coherent
      (t ++ raw ++ behind) where
  start := by
    rw [List.append_assoc]
    exact Position.coherent_after t (raw ++ behind)
  stop := Position.coherent_after (t ++ raw) behind
  ordered := by
    simp only [Position.after_offset, List.length_append]
    omega

theorem coherent_point {source : Text} {p : Position} (h : p.Coherent source) :
    (point p).Coherent source := ⟨h, h, Int.le_refl _⟩

/-- Two spans have a common span, in whichever order they stand. -/
theorem Coherent.cover {source : Text} {a b : Span} (ha : a.Coherent source)
    (hb : b.Coherent source) : (Span.cover a b).Coherent source := by
  have horder := ha.ordered
  have horder' := hb.ordered
  constructor
  · simp only [Span.cover]
    split
    · exact ha.start
    · exact hb.start
  · simp only [Span.cover]
    split
    · exact hb.stop
    · exact ha.stop
  · simp only [Span.cover]
    split <;> split <;> omega

end Span

namespace Text

theorem coherent_of_mem_tokens {config : Config} {source : Text} {t : Token}
    (ht : t ∈ (source.tokenStream config).tokens) : t.span.Coherent source := by
  obtain ⟨u, v, hs, hstart, hstop⟩ := tokens_around ht
  have hcoherent := Span.coherent_after u t.raw v
  rw [← hs, ← hstart, ← hstop] at hcoherent
  exact hcoherent

/-- Bad escapes stand where they are in the body of their literal. -/
theorem coherent_of_mem_bodyDiagnostics {u v : Text} {body : List Piece} {d : Diagnostic}
    (hd : d ∈ Lexeme.bodyDiagnostics (Position.origin.after u) body) :
    d.span.Coherent (u ++ body.flatMap Piece.raw ++ v) := by
  induction body generalizing u with
  | nil => cases hd
  | cons piece body ih =>
    have hwhole : u ++ (piece :: body).flatMap Piece.raw ++ v =
        u ++ piece.raw ++ body.flatMap Piece.raw ++ v := by simp
    rw [Lexeme.bodyDiagnostics, ← Position.after_append] at hd
    rw [hwhole]
    split at hd
    · exact ih hd
    · obtain rfl | hd := List.mem_cons.1 hd
      · rw [List.append_assoc (u ++ piece.raw)]
        exact Span.coherent_after u piece.raw _
      · exact ih hd

theorem coherent_of_mem_diagnostics {config : Config} {source : Text} {d : Diagnostic}
    (hd : d ∈ (source.tokenStream config).diagnostics) : d.span.Coherent source := by
  obtain ⟨l, hl, hd⟩ := List.mem_flatMap.1 hd
  obtain ⟨u, v, hs, hstart⟩ := lexemes_around _ _ l hl
  rw [Placed.diagnostics, hstart] at hd
  cases hlexeme : l.lexeme with
  | string body =>
    rw [hlexeme] at hd hs
    have hopen : (Position.origin.after u).advance '"' =
        Position.origin.after (u ++ [CodePoint.ofChar '"']) := by
      rw [Position.after_append]
      rfl
    rw [Lexeme.diagnostics, hopen] at hd
    have hcoherent := coherent_of_mem_bodyDiagnostics (v := "\"" ++ v) hd
    rw [hs]
    simpa [Lexeme.raw] using hcoherent
  | malformed fault raw =>
    rw [hlexeme] at hd hs
    obtain rfl := List.mem_singleton.1 hd
    rw [hs, ← Position.after_append]
    exact Span.coherent_after u raw v
  | _ => rw [hlexeme] at hd; cases hd

end Text

end LenSyntax

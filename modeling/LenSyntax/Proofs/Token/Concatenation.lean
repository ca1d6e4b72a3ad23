import LenSyntax.Proofs.Lexeme.Locality
import LenSyntax.Proofs.Token.Coherence

/-! A line feed between two texts keeps their lexemes apart: but for blanks, the joined text has
those of the first text and then those of the second one, further down. -/
namespace LenSyntax

/-- What is left out by a filter may be left in where nothing is made of it. -/
theorem flatMap_filter_of_eq_nil {α β : Type} {p : α → Bool} {f : α → List β} {l : List α}
    (h : ∀ a ∈ l, ¬ p a → f a = []) : (l.filter p).flatMap f = l.flatMap f := by
  induction l with
  | nil => rfl
  | cons a l ih =>
    rw [List.forall_mem_cons] at h
    rw [List.filter_cons, List.flatMap_cons, ← ih h.2]
    split
    · rfl
    · next ha => rw [h.1 ha, List.nil_append]

theorem Lexeme.scan_blanks {c : CodePoint} {t : Text} (h : (scan c t).1.isBlank) :
    ∀ d ∈ (scan c t).1.raw, d.isBlank := by
  have hpass := scan_passable c t
  cases hl : (scan c t).1 with
  | blank raw =>
    rw [hl] at hpass
    exact hpass
  | _ => simp [hl, isBlank] at h

theorem Lexeme.token?_of_isBlank {keepComments : Bool} {span : Span} {l : Lexeme}
    (h : l.isBlank) : l.token? keepComments span = none := by
  cases l with
  | blank raw => rfl
  | _ => cases h

theorem Lexeme.diagnostics_of_isBlank {p : Position} {l : Lexeme} (h : l.isBlank) :
    l.diagnostics p = [] := by
  cases l with
  | blank raw => rfl
  | _ => cases h

namespace Text

/-- The lexemes of a text that starts at `p` which are no blanks. -/
def visible (p : Position) (t : Text) : List Placed :=
  (t.lexemes p).filter (!·.lexeme.isBlank)

@[simp] theorem visible_nil (p : Position) : visible p [] = [] := by simp [visible]

theorem visible_cons (p : Position) (c : CodePoint) (t : Text)
    (h : (Lexeme.scan c t).1.isBlank = false) :
    visible p (c :: t) = ⟨p, (Lexeme.scan c t).1⟩ ::
      visible (p.after (Lexeme.scan c t).1.raw) (Lexeme.scan c t).2 := by
  rw [visible, lexemes_cons, List.filter_cons_of_pos (by simp [h])]
  rfl

/-- Blanks in front of a text only move it. -/
theorem visible_dropWhile (p : Position) (t : Text) :
    visible p t = visible (p.after (t.takeWhile CodePoint.isBlank))
      (t.dropWhile CodePoint.isBlank) := by
  cases t with
  | nil => rfl
  | cons c t =>
    by_cases hc : c.isBlank
    · have hscan : Lexeme.scan c t = (.blank ((c :: t).takeWhile CodePoint.isBlank),
          (c :: t).dropWhile CodePoint.isBlank) := by
        rw [Lexeme.scan, if_pos hc]
        rfl
      rw [visible, lexemes_cons, hscan, List.filter_cons_of_neg (by simp [Lexeme.isBlank])]
      rfl
    · rw [List.takeWhile_cons_of_neg hc, List.dropWhile_cons_of_neg hc, Position.after_nil]

theorem visible_append_of_blanks {w : Text} (hw : ∀ c ∈ w, c.isBlank) (p : Position) (t : Text) :
    visible p (w ++ t) = visible (p.after w) t := by
  rw [visible_dropWhile, List.takeWhile_append_of_pos hw, List.dropWhile_append_of_pos hw,
    Position.after_append, ← visible_dropWhile]

/-- Behind a line feed the lexemes are those of the text there, unless a comment is still open. -/
theorem visible_append_lineFeed (p : Position) (a b : Text)
    (ha : ∀ l ∈ a.lexemes p, l.lexeme.isOpenComment = false) :
    visible p (a ++ CodePoint.ofChar '\n' :: b) =
      visible p a ++ visible (p.after (a ++ "\n")) b := by
  match a with
  | [] =>
    rw [visible_nil]
    exact visible_append_of_blanks (w := "\n") (by decide) p b
  | c :: a =>
    have happend := Lexeme.scan_append c a
    rw [lexemes_cons, List.forall_mem_cons] at ha
    have ih := visible_append_lineFeed _ (Lexeme.scan c a).2 b ha.2
    rw [← Position.after_append, ← List.append_assoc, happend] at ih
    cases hblank : (Lexeme.scan c a).1.isBlank with
    | true =>
      -- a blank may go on over the line feed, so it is moved out of the way on both sides
      have hmoved := visible_append_of_blanks (Lexeme.scan_blanks hblank) p
      have hfirst := hmoved (Lexeme.scan c a).2
      have hjoined := hmoved ((Lexeme.scan c a).2 ++ CodePoint.ofChar '\n' :: b)
      rw [happend] at hfirst
      rw [← List.append_assoc, happend] at hjoined
      rw [hfirst, hjoined, ih]
    | false =>
      have hscan : Lexeme.scan c (a ++ CodePoint.ofChar '\n' :: b) = ((Lexeme.scan c a).1,
          (Lexeme.scan c a).2 ++ CodePoint.ofChar '\n' :: b) := by
        by_cases hrest : (Lexeme.scan c a).2 = []
        · rw [hrest]
          exact Lexeme.scan_append_lineFeed hrest hblank ha.1 b
        · exact Lexeme.scan_append_of_ne_nil hrest _
      have hjoined := visible_cons p c (a ++ CodePoint.ofChar '\n' :: b) (by rw [hscan, hblank])
      rw [hscan, ih] at hjoined
      rw [List.cons_append, hjoined, visible_cons p c a hblank]
      rfl
  termination_by a.length
  decreasing_by exact Lexeme.scan_length_lt c a

/-- Blanks make no tokens. -/
theorem filterMap_token?_visible (keepComments : Bool) (p : Position) (t : Text) :
    (visible p t).filterMap (·.token? keepComments) =
      (t.lexemes p).filterMap (·.token? keepComments) := by
  rw [visible, List.filterMap_filter]
  refine List.filterMap_congr fun l _ => ?_
  split
  · rfl
  · next h => exact (Lexeme.token?_of_isBlank (by simpa using h)).symm

/-- Nothing is wrong with blanks. -/
theorem flatMap_diagnostics_visible (p : Position) (t : Text) :
    (visible p t).flatMap (·.diagnostics) = (t.lexemes p).flatMap (·.diagnostics) := by
  exact flatMap_filter_of_eq_nil fun l _ hl => Lexeme.diagnostics_of_isBlank (by simpa using hl)

/-- The tokens and the diagnostics of a source come from its visible lexemes. -/
theorem tokenStream_eq_visible (config : Config) (source : Text) :
    source.tokenStream config =
      ⟨(visible .origin source).filterMap (·.token? config.keepComments) ++
          [.endAt (Position.origin.after source)],
        (visible .origin source).flatMap (·.diagnostics)⟩ := by
  rw [filterMap_token?_visible, flatMap_diagnostics_visible]
  rfl

end Text

/-! ### Further down -/

namespace Position

/-- A position of a text when so many lines and code points stand in front of it. -/
def shift (lines offset : Nat) (p : Position) : Position :=
  ⟨p.line + lines, p.column, p.offset + offset⟩

theorem shift_advance (lines offset : Nat) (p : Position) (c : CodePoint) :
    (p.shift lines offset).advance c = (p.advance c).shift lines offset := by
  unfold advance
  split <;> ext <;> simp [shift] <;> omega

theorem shift_after (lines offset : Nat) (p : Position) (t : Text) :
    (p.shift lines offset).after t = (p.after t).shift lines offset := by
  induction t generalizing p with
  | nil => rfl
  | cons c t ih => rw [after_cons, after_cons, shift_advance, ih]

/-- A line feed leads to the start of the next line. -/
theorem origin_after_lineFeed (t : Text) :
    origin.after (t ++ "\n") =
      origin.shift (t.count (CodePoint.ofChar '\n') + 1) (t.length + 1) := by
  have hstep : origin.after (t ++ "\n") = (origin.after t).advance '\n' := after_append _ _ _
  rw [hstep, advance, if_pos rfl]
  ext
  · rw [origin_after_line]
    simp only [shift, origin]
    omega
  · rfl
  · simp only [after_offset, shift, origin]
    omega

end Position

def Span.shift (lines offset : Nat) (s : Span) : Span :=
  ⟨s.start.shift lines offset, s.stop.shift lines offset⟩

def Token.shift (lines offset : Nat) (t : Token) : Token :=
  { t with span := t.span.shift lines offset }

def Diagnostic.shift (lines offset : Nat) (d : Diagnostic) : Diagnostic :=
  { d with span := d.span.shift lines offset }

def Placed.shift (lines offset : Nat) (l : Placed) : Placed :=
  ⟨l.start.shift lines offset, l.lexeme⟩

section
variable (lines offset : Nat)

theorem Placed.token?_shift (keepComments : Bool) (l : Placed) :
    (l.shift lines offset).token? keepComments =
      (l.token? keepComments).map (·.shift lines offset) := by
  obtain ⟨start, lexeme⟩ := l
  cases lexeme <;>
    simp [Placed.shift, Placed.token?, Placed.span, Lexeme.token?, Token.shift, Span.shift,
      Position.shift_after]

theorem Lexeme.bodyDiagnostics_shift (p : Position) (body : List Piece) :
    bodyDiagnostics (p.shift lines offset) body =
      (bodyDiagnostics p body).map (·.shift lines offset) := by
  induction body generalizing p with
  | nil => rfl
  | cons piece body ih =>
    simp only [bodyDiagnostics, Position.shift_after]
    split
    · exact ih _
    · rw [ih]
      rfl

theorem Placed.diagnostics_shift (l : Placed) :
    (l.shift lines offset).diagnostics = l.diagnostics.map (·.shift lines offset) := by
  obtain ⟨start, lexeme⟩ := l
  cases lexeme with
  | string body =>
    simp only [Placed.diagnostics, Placed.shift, Lexeme.diagnostics, Position.shift_advance]
    exact Lexeme.bodyDiagnostics_shift _ _ _ _
  | malformed fault raw =>
    simp only [Placed.diagnostics, Placed.shift, Lexeme.diagnostics, Position.shift_after]
    rfl
  | _ => rfl

theorem Text.lexemes_shift (p : Position) (t : Text) :
    t.lexemes (p.shift lines offset) = (t.lexemes p).map (·.shift lines offset) := by
  match t with
  | [] => simp
  | c :: t =>
    rw [lexemes_cons, lexemes_cons, Position.shift_after, lexemes_shift, List.map_cons]
    rfl
  termination_by t.length
  decreasing_by exact Lexeme.scan_length_lt c t

theorem Text.visible_shift (p : Position) (t : Text) :
    t.visible (p.shift lines offset) = (t.visible p).map (·.shift lines offset) := by
  rw [visible, lexemes_shift, List.filter_map]
  rfl

end

namespace Text

theorem isOpenComment_eq_false_of_messages {config : Config} {source : Text}
    (h : ∀ d ∈ (source.tokenStream config).diagnostics,
      d.message ≠ LexicalFault.openComment.message) :
    ∀ l ∈ source.lexemes .origin, l.lexeme.isOpenComment = false := by
  intro l hl
  by_contra hopen
  obtain ⟨raw, hlexeme⟩ : ∃ raw, l.lexeme = .malformed .openComment raw := by
    cases hlexeme : l.lexeme with
    | malformed fault raw => cases fault <;> simp_all [Lexeme.isOpenComment]
    | _ => simp [hlexeme, Lexeme.isOpenComment] at hopen
  refine h (.error LexicalFault.openComment.message ⟨l.start, l.start.after raw⟩) ?_ rfl
  refine List.mem_flatMap.2 ⟨l, hl, ?_⟩
  rw [Placed.diagnostics, hlexeme]
  exact List.mem_singleton.2 rfl

/-- The tokens and the diagnostics of two texts with a line feed between them are those of the first
text, without its end, and those of the second one, moved down. -/
theorem tokenStream_append_lineFeed (config : Config) (a b : Text)
    (h : ∀ d ∈ (a.tokenStream config).diagnostics,
      d.message ≠ LexicalFault.openComment.message) :
    let first := a.tokenStream config
    let second := b.tokenStream config
    let joined := (a ++ "\n" ++ b).tokenStream config
    let lines := a.count (CodePoint.ofChar '\n') + 1
    joined.tokens =
        first.tokens.dropLast ++ second.tokens.map (·.shift lines (a.length + 1)) ∧
      joined.diagnostics =
        first.diagnostics ++ second.diagnostics.map (·.shift lines (a.length + 1)) := by
  intro first second joined lines
  have hvisible : visible .origin (a ++ "\n" ++ b) =
      visible .origin a ++ (visible .origin b).map (·.shift lines (a.length + 1)) := by
    rw [List.append_assoc]
    refine (visible_append_lineFeed _ a b (isOpenComment_eq_false_of_messages h)).trans ?_
    rw [Position.origin_after_lineFeed, visible_shift]
  have hend : Token.endAt (Position.origin.after (a ++ "\n" ++ b)) =
      (Token.endAt (Position.origin.after b)).shift lines (a.length + 1) := by
    rw [Position.after_append, Position.origin_after_lineFeed, Position.shift_after]
    rfl
  simp only [joined, first, second, tokenStream_eq_visible, hvisible, hend]
  constructor
  · rw [List.dropLast_concat, List.filterMap_append, List.map_append, List.append_assoc,
      List.filterMap_map, List.map_filterMap]
    simp only [Function.comp_def, Placed.token?_shift]
    rfl
  · rw [List.flatMap_append, List.flatMap_map, List.map_flatMap]
    simp only [Placed.diagnostics_shift]

/-- A backslash and an exponent that stand at the end of their lines. -/
theorem tokenStream_exponent_lineFeed :
    let config : Config := .make true 1
    let a : Text := "\"x\\\n& 1e+"
    let b : Text := "5 \"\\q\""
    let first := a.tokenStream config
    let second := b.tokenStream config
    let joined := (a ++ "\n" ++ b).tokenStream config
    let lines := a.count (CodePoint.ofChar '\n') + 1
    (∀ d ∈ first.diagnostics, d.message ≠ LexicalFault.openComment.message) ∧
      joined.tokens =
        first.tokens.dropLast ++ second.tokens.map (·.shift lines (a.length + 1)) ∧
      joined.diagnostics =
        first.diagnostics ++ second.diagnostics.map (·.shift lines (a.length + 1)) := by
  intro config a b first second joined lines
  have hopen : ∀ d ∈ first.diagnostics, d.message ≠ LexicalFault.openComment.message := by
    decide +kernel
  exact ⟨hopen, tokenStream_append_lineFeed config a b hopen⟩

end Text

end LenSyntax

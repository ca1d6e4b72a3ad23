import LenSyntax.Proofs.Machine.Basic

/-! The machine keeps its books. Whatever it does next, the count is the number of expressions that
have been entered and not left, and the stack holds the closers that the open brackets wait for. -/
namespace LenSyntax.Machine

/-- Whether a frame belongs to an expression that has been entered and not yet left. -/
def Frame.isEntered : Frame → Bool
  | operations _ | operation _ _ _ => true
  | _ => false

/-- The closers that are waited for inside a frame, those around it apart. -/
def Frame.awaited : Frame → List TokenKind
  | group _ => Bracket.paren.awaited
  | product _ _ => Bracket.brace.awaited
  | _ => []

def Task.awaited : Task → List TokenKind
  | fields _ _ => Bracket.brace.awaited
  | _ => []

namespace State

/-- How many expressions have been entered and not yet left. -/
def entered (x : State) : Nat := x.frames.countP Frame.isEntered

/-- The count is the number of entered expressions, the limit bounds it, and the stack holds what
the open brackets wait for, the innermost in front. -/
structure Balanced (limit : Nat) (x : State) : Prop where
  depth_eq : x.depth = x.entered
  depth_le : x.depth ≤ limit
  closers_eq : x.closers = x.task.awaited ++ x.frames.flatMap Frame.awaited

variable {limit : Nat} {ending : Span} {x y : State}

theorem balanced_closes {b : Bracket} {opening : Token} {trees : List SyntaxTree}
    (hdepth : x.depth = x.entered) (hle : x.depth ≤ limit)
    (hclosers : x.closers = b.awaited ++ x.frames.flatMap Frame.awaited) :
    (x.closes limit ending b opening trees).Balanced limit := by
  refine ⟨hdepth, hle, ?_⟩
  change x.closers.drop b.awaited.length = x.frames.flatMap Frame.awaited
  rw [hclosers, List.drop_left]

namespace Balanced

theorem stepExpression {least : Nat} (h : x.Balanced limit) (ht : x.task = .expression least) :
    (x.stepExpression limit ending least).Balanced limit := by
  obtain ⟨hdepth, hle, hclosers⟩ := h
  rw [ht] at hclosers
  unfold State.stepExpression
  split
  · exact ⟨hdepth, hle, hclosers⟩
  · next hlimit =>
    refine ⟨?_, Nat.lt_of_not_le hlimit, hclosers⟩
    change x.depth + 1 = (Frame.operations least :: x.frames).countP Frame.isEntered
    rw [List.countP_cons, hdepth]
    rfl

theorem stepOperand (h : x.Balanced limit) (ht : x.task = .operand) :
    (x.stepOperand limit ending).Balanced limit := by
  obtain ⟨hdepth, hle, hclosers⟩ := h
  rw [ht] at hclosers
  have hreads (p : Parsed SyntaxTree) : (x.reads p).Balanced limit := ⟨hdepth, hle, hclosers⟩
  have hinside (b : Bracket) :
      b.awaited ++ x.closers = b.awaited ++ x.frames.flatMap Frame.awaited := congrArg _ hclosers
  simp only [State.stepOperand]
  split
  · exact hreads _
  split
  case h_4 =>
    split
    · exact ⟨hdepth, hle, hclosers⟩
    · exact hreads _
  case h_5 => exact ⟨hdepth, hle, hinside .paren⟩
  case h_6 => exact ⟨hdepth, hle, hinside .brace⟩
  case h_8 => split <;> exact hreads _
  all_goals exact hreads _

theorem stepFields {opening : Token} {trees : List SyntaxTree} (h : x.Balanced limit)
    (ht : x.task = .fields opening trees) :
    (x.stepFields limit ending opening trees).Balanced limit := by
  obtain ⟨hdepth, hle, hclosers⟩ := h
  rw [ht] at hclosers
  unfold State.stepFields
  split
  · exact balanced_closes hdepth hle hclosers
  · exact ⟨hdepth, hle, hclosers⟩

end Balanced

/-- A value may be returned to any frame: what was counted and stacked for the frame stays with it
or is undone. -/
theorem balanced_resume {f : Frame} {t : SyntaxTree}
    (hdepth : x.depth = x.entered + if f.isEntered then 1 else 0) (hle : x.depth ≤ limit)
    (hclosers : x.closers = f.awaited ++ x.frames.flatMap Frame.awaited) :
    (x.resume limit ending t f).Balanced limit := by
  have hcount (g : Frame) : (g :: x.frames).countP Frame.isEntered =
      x.entered + if g.isEntered then 1 else 0 := List.countP_cons
  cases f with
  | binding | negate | lambda | field | call => exact ⟨hdepth, hle, hclosers⟩
  | calls =>
    simp only [State.resume]
    split <;> exact ⟨hdepth, hle, hclosers⟩
  | operation least left u => exact ⟨hdepth.trans (hcount _).symm, hle, hclosers⟩
  | operations least =>
    have hleft : State.Balanced limit { x with task := .value t, depth := x.depth - 1 } :=
      ⟨Nat.sub_eq_of_eq_add hdepth, Nat.le_trans (Nat.sub_le _ _) hle, hclosers⟩
    simp only [State.resume, resumeOperations]
    split
    · exact hleft
    split
    · exact hleft
    split
    · exact hleft
    · exact ⟨hdepth.trans (hcount _).symm, hle, hclosers⟩
  | group opening => exact balanced_closes hdepth hle hclosers
  | product opening before =>
    simp only [State.resume, resumeProduct]
    split
    · exact ⟨hdepth, hle, hclosers⟩
    split <;> exact ⟨hdepth, hle, hclosers⟩

theorem Balanced.finish {t : SyntaxTree} (h : x.Balanced limit) (ht : x.task = .value t) :
    (x.finish limit ending t).Balanced limit := by
  obtain ⟨hdepth, hle, hclosers⟩ := h
  rw [ht] at hclosers
  unfold State.finish
  split
  · exact ⟨hdepth, hle, hclosers⟩
  split <;> exact ⟨hdepth, hle, hclosers⟩

/-- No step unbalances the machine. -/
theorem Balanced.step (h : x.Balanced limit) (hs : x.step limit ending = some y) :
    y.Balanced limit := by
  have hclosers := h.closers_eq
  cases ht : x.task with
  | program =>
    rw [ht] at hclosers
    simp only [State.step, ht] at hs
    split at hs <;> cases hs
    split <;> exact ⟨h.depth_eq, h.depth_le, hclosers⟩
  | statement =>
    rw [ht] at hclosers
    simp only [State.step, ht, Option.some_inj] at hs
    rw [← hs]
    unfold stepStatement
    split <;> exact ⟨h.depth_eq, h.depth_le, hclosers⟩
  | expression least =>
    simp only [State.step, ht, Option.some_inj] at hs
    exact hs ▸ h.stepExpression ht
  | unary =>
    rw [ht] at hclosers
    simp only [State.step, ht, Option.some_inj] at hs
    rw [← hs]
    unfold stepUnary
    split
    · exact ⟨h.depth_eq, h.depth_le, hclosers⟩
    split <;> exact ⟨h.depth_eq, h.depth_le, hclosers⟩
  | operand =>
    simp only [State.step, ht, Option.some_inj] at hs
    exact hs ▸ h.stepOperand ht
  | fields opening trees =>
    simp only [State.step, ht, Option.some_inj] at hs
    exact hs ▸ h.stepFields ht
  | field before =>
    rw [ht] at hclosers
    simp only [State.step, ht, Option.some_inj] at hs
    rw [← hs]
    unfold stepField
    split <;> exact ⟨h.depth_eq, h.depth_le, hclosers⟩
  | value t =>
    rw [ht] at hclosers
    cases hframes : x.frames with
    | nil =>
      simp only [State.step, ht, hframes, Option.some_inj] at hs
      exact hs ▸ h.finish ht
    | cons f frames =>
      simp only [State.step, ht, hframes, Option.some_inj] at hs
      have hdepth := h.depth_eq
      rw [entered, hframes, List.countP_cons] at hdepth
      rw [hframes, List.flatMap_cons] at hclosers
      exact hs ▸ balanced_resume hdepth h.depth_le hclosers

theorem Balanced.reaches (h : x.Balanced limit) (hr : Reaches limit ending x y) :
    y.Balanced limit := by
  induction hr with
  | refl => exact h
  | tail _ hs ih => exact ih.step hs

/-- Behind a statement nothing is left of it. -/
theorem Balanced.of_frames_eq_nil {t : SyntaxTree} (h : x.Balanced limit) (ht : x.task = .value t)
    (hframes : x.frames = []) : x.depth = 0 ∧ x.closers = [] := by
  have hdepth := h.depth_eq
  have hclosers := h.closers_eq
  rw [entered, hframes] at hdepth
  rw [ht, hframes] at hclosers
  exact ⟨hdepth, hclosers⟩

end State

theorem balanced_start (limit : Nat) (ts : List Token) : (start ts).Balanced limit :=
  ⟨rfl, Nat.zero_le _, rfl⟩

end LenSyntax.Machine

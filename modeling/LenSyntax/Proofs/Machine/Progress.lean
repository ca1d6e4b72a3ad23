import LenSyntax.Proofs.Grammar.Skipping
import LenSyntax.Proofs.Machine.Balance
import Mathlib.Data.Prod.Lex

/-! The machine goes forward. It never gives tokens back, and as long as it takes none it comes
down: from a statement to its operand while it turns to what is inside, and from frame to frame
while it returns. So it comes round to nothing without having taken a token in between. -/
namespace LenSyntax.Machine

open ExpressionParser

/-- How many returns a frame may still cost: behind an argument, a right operand or a field what is
around it goes on. -/
def Frame.weight : Frame → Nat
  | operation _ _ _ | call _ | product _ _ => 2
  | _ => 1

def Frame.weightAll : List Frame → Nat
  | [] => 0
  | f :: frames => f.weight + weightAll frames

theorem Frame.weight_pos (f : Frame) : 0 < f.weight := by
  cases f <;> exact Nat.zero_lt_succ _

namespace State
variable {limit : Nat} {ending : Span} {x y z : State}

/-- How much the machine may still do without taking a token. The first number falls while it turns
to what is inside, the second while it returns. Only where an operand is sure to take a token, or
nothing is left, is it lower than where a value is returned. -/
def height (limit : Nat) (ending : Span) (x : State) : ℕ ×ₗ ℕ :=
  match x.task with
  | .program => toLex (if x.rest.isEmpty then 0 else 7, 0)
  | .statement => toLex (6, 0)
  | .expression _ => toLex (5, 0)
  | .unary => toLex (4, 0)
  | .operand => toLex (if startsOperand x.rest then 1 else 3, 0)
  | .fields _ _ =>
    if (x.surroundings limit ending).endsFields x.rest then
      toLex (2, 1 + Frame.weightAll x.frames)
    else toLex (4, 0)
  | .field _ => toLex (3, 0)
  | .value _ => toLex (2, Frame.weightAll x.frames)

/-- From one state to another some tokens have been taken, or the machine has come down. -/
structure Descends (limit : Nat) (ending : Span) (x y : State) : Prop where
  rest_suffix : y.rest <:+ x.rest
  height_lt : y.rest = x.rest → y.height limit ending < x.height limit ending

namespace Descends

theorem trans (h : Descends limit ending x y) (h' : Descends limit ending y z) :
    Descends limit ending x z := by
  refine ⟨h'.rest_suffix.trans h.rest_suffix, fun heq => ?_⟩
  have hy : y.rest = x.rest := h.rest_suffix.eq_of_length_le (heq ▸ h'.rest_suffix.length_le)
  exact (h'.height_lt (heq.trans hy.symm)).trans (h.height_lt hy)

theorem of_length_lt (hs : y.rest <:+ x.rest) (hlt : y.rest.length < x.rest.length) :
    Descends limit ending x y :=
  ⟨hs, fun heq => absurd (congrArg List.length heq) (Nat.ne_of_lt hlt)⟩

theorem of_cons {t : Token} {ts : List Token} (hr : x.rest = t :: ts) (hs : y.rest <:+ ts) :
    Descends limit ending x y := by
  refine of_length_lt (hr ▸ hs.trans (List.suffix_cons t ts)) ?_
  rw [hr]
  exact Nat.lt_succ_of_le hs.length_le

/-- Where no synchronization point is, something is skipped. -/
theorem of_recover {s : Surroundings} (fault : SyntaxFault) (hs : ¬ s.atSync x.rest)
    (hy : y.rest = (s.recover fault x.rest).rest) : Descends limit ending x y :=
  of_length_lt (hy ▸ s.recover_suffix fault x.rest)
    (hy ▸ Surroundings.length_recover_lt fault hs)

/-- Where the machine comes down it may take tokens or not. -/
theorem of_lt (hs : y.rest <:+ x.rest) (h : y.height limit ending < x.height limit ending) :
    Descends limit ending x y := ⟨hs, fun _ => h⟩

end Descends

theorem exists_cons_of_named? {mark : TokenKind} {name : Token} {ts more : List Token}
    (h : named? mark ts = some (name, more)) : ∃ u, ts = name :: u :: more := by
  unfold named? at h
  split at h
  · next u _ =>
    split at h
    · cases h
      exact ⟨u, rfl⟩
    · cases h
  · cases h

theorem descends_stepStatement (ht : x.task = .statement) :
    Descends limit ending x x.stepStatement := by
  unfold stepStatement
  split
  · next hn =>
    obtain ⟨u, hr⟩ := exists_cons_of_named? hn
    exact .of_cons hr (List.suffix_cons _ _)
  · refine .of_lt List.suffix_rfl ?_
    simp only [height, ht]
    exact .left _ _ (by decide)

theorem descends_stepExpression {least : Nat} (ht : x.task = .expression least) :
    Descends limit ending x (x.stepExpression limit ending least) := by
  unfold stepExpression
  split
  · refine .of_lt (Surroundings.recover_suffix _ (.tooDeep limit) _) ?_
    simp only [height, ht]
    exact .left _ _ (by decide)
  · refine .of_lt List.suffix_rfl ?_
    simp only [height, ht]
    exact .left _ _ (by decide)

theorem descends_stepUnary (ht : x.task = .unary) : Descends limit ending x x.stepUnary := by
  have hoperand :
      (x.enters .calls .operand x.rest).height limit ending < x.height limit ending := by
    have hphase : (if startsOperand x.rest then 1 else 3) < 4 := by split <;> decide
    simp only [height, ht]
    exact .left _ _ hphase
  unfold stepUnary
  split
  · next hr => exact .of_lt (hr ▸ List.suffix_rfl) (hr ▸ hoperand)
  · next hr =>
    split
    · exact .of_cons hr List.suffix_rfl
    · exact .of_lt (hr ▸ List.suffix_rfl) (hr ▸ hoperand)

theorem descends_stepOperand (ht : x.task = .operand) :
    Descends limit ending x (x.stepOperand limit ending) := by
  have hreads (ho : ¬ startsOperand x.rest) {p : Parsed SyntaxTree} (hp : p.rest <:+ x.rest) :
      Descends limit ending x (x.reads p) := by
    refine .of_lt hp ?_
    simp only [height, ht, if_neg ho]
    exact .left _ _ (by decide)
  simp only [stepOperand]
  split
  · next hr => exact hreads (by simp [hr, startsOperand]) (hr ▸ List.suffix_rfl)
  next t more hr =>
  split
  case h_4 =>
    split
    · next hn =>
      obtain ⟨u, hcons⟩ := exists_cons_of_named? hn
      exact .of_cons (hr.trans hcons) (List.suffix_cons _ _)
    · exact .of_cons hr List.suffix_rfl
  case h_8 =>
    have ho : ¬ startsOperand x.rest := by
      simp_all [TokenKind.startsOperand, startsOperand_cons]
    split
    · exact hreads ho (hr ▸ List.suffix_rfl)
    · exact hreads ho (hr ▸ Surroundings.recover_suffix _ (.unexpected (.token t.raw)) _)
  all_goals exact .of_cons hr List.suffix_rfl

theorem descends_closes {b : Bracket} {opening : Token} {trees : List SyntaxTree}
    (h : toLex (2, Frame.weightAll x.frames) < x.height limit ending) :
    Descends limit ending x (x.closes limit ending b opening trees) :=
  .of_lt (close_suffix _ _ _ _ _) h

theorem descends_stepFields {opening : Token} {trees : List SyntaxTree}
    (ht : x.task = .fields opening trees) :
    Descends limit ending x (x.stepFields limit ending opening trees) := by
  unfold stepFields
  split
  · next he =>
    refine descends_closes ?_
    simp only [height, ht, if_pos he]
    exact .right _ (Nat.lt_add_of_pos_left Nat.one_pos)
  · next he =>
    refine .of_lt List.suffix_rfl ?_
    simp only [height, ht, if_neg he]
    exact .left _ _ (by decide)

theorem descends_stepField {before : List SyntaxTree} (ht : x.task = .field before) :
    Descends limit ending x (x.stepField limit ending before) := by
  unfold stepField
  split
  · next hn =>
    obtain ⟨u, hr⟩ := exists_cons_of_named? hn
    exact .of_cons hr (List.suffix_cons _ _)
  · refine .of_lt (noField_suffix _ _) ?_
    simp only [height, ht]
    exact .left _ _ (by decide)

theorem descends_resumeOperations {least : Nat} {t v : SyntaxTree} {frames : List Frame}
    (hframes : x.frames = .operations least :: frames) (ht : x.task = .value v) :
    Descends limit ending x ({ x with task := .value v, frames }.resumeOperations least t) := by
  have hleft : Descends limit ending x
      { x with task := .value t, frames, depth := x.depth - 1 } := by
    refine .of_lt List.suffix_rfl ?_
    simp only [height, ht, hframes, Frame.weightAll]
    exact .right _ (Nat.lt_add_of_pos_left (Frame.weight_pos _))
  unfold resumeOperations
  split
  · exact hleft
  · next hr =>
    split
    · exact hleft
    · split
      · exact hleft
      · exact .of_cons hr List.suffix_rfl

theorem descends_resumeProduct {opening : Token} {before trees : List SyntaxTree} {v : SyntaxTree}
    {frames : List Frame} (hframes : x.frames = .product opening before :: frames)
    (ht : x.task = .value v) :
    Descends limit ending x
      ({ x with task := .value v, frames }.resumeProduct limit ending opening trees) := by
  unfold resumeProduct
  split
  · next hc =>
    cases hr : x.rest with
    | nil => simp_all
    | cons t more => exact .of_cons hr (List.suffix_refl more)
  · next hc =>
    split
    · next hs =>
      have he : (x.surroundings limit ending).endsFields x.rest := by
        simp only [Surroundings.endsFields, Bool.or_eq_true, Bool.and_eq_true]
        exact .inr ⟨hs, by simpa using hc⟩
      -- so the next step leaves the product
      have he' : ({ x with task := .fields opening trees, frames }.surroundings
          limit ending).endsFields x.rest := he
      refine .of_lt List.suffix_rfl ?_
      simp only [height, ht, hframes, if_pos he', Frame.weightAll]
      exact .right _ (Nat.add_lt_add_right (Nat.lt_succ_self 1) _)
    · next hs =>
      exact .of_recover (.afterField (.ofHead x.rest)) hs rfl

theorem descends_resume {f : Frame} {frames : List Frame} {t v : SyntaxTree}
    (hframes : x.frames = f :: frames) (ht : x.task = .value v) :
    Descends limit ending x ({ x with task := .value v, frames }.resume limit ending t f) := by
  have hreturns {y : State} (hs : y.rest <:+ x.rest) {u : SyntaxTree} (hy : y.task = .value u)
      (hw : Frame.weightAll y.frames < f.weight + Frame.weightAll frames) :
      Descends limit ending x y := by
    refine .of_lt hs ?_
    simp only [height, ht, hy, hframes, Frame.weightAll]
    exact .right _ hw
  cases f with
  | binding | negate | lambda | field =>
    exact hreturns List.suffix_rfl rfl (Nat.lt_add_of_pos_left (Frame.weight_pos _))
  | operations least => exact descends_resumeOperations hframes ht
  | operation | call =>
    refine hreturns List.suffix_rfl rfl ?_
    exact Nat.add_lt_add_right (Nat.lt_succ_self 1) _
  | calls =>
    simp only [resume]
    split
    · next ho =>
      -- the operand takes a token for certain, so it stands lower than the value
      refine .of_lt List.suffix_rfl ?_
      change toLex (if startsOperand x.rest then 1 else 3, 0) < x.height limit ending
      rw [if_pos ho]
      simp only [height, ht]
      exact .left _ _ (by decide)
    · exact hreturns List.suffix_rfl rfl (Nat.lt_add_of_pos_left (Frame.weight_pos _))
  | group opening =>
    refine hreturns ?_ rfl (Nat.lt_add_of_pos_left (Frame.weight_pos _))
    exact (close_suffix _ _ _ _ _).trans (leftover_suffix _ _)
  | product opening before => exact descends_resumeProduct hframes ht

/-- Behind a statement, where no closer is waited for. -/
theorem descends_finish {t v : SyntaxTree} (ht : x.task = .value v) (hc : x.closers = []) :
    Descends limit ending x (x.finish limit ending t) := by
  unfold finish
  split
  · next hr =>
    refine .of_lt (hr ▸ List.suffix_rfl) ?_
    simp only [height, ht, hr]
    exact .left _ _ (by decide)
  · next u more hr =>
    split
    · exact .of_cons hr List.suffix_rfl
    · next hm =>
      have hs : ¬ (x.surroundings limit ending).atSync (u :: more) :=
        Surroundings.not_atSync_of_closers_eq_nil hc hm more
      rw [← hr] at hs ⊢
      exact .of_recover (.afterStatement (.token u.raw)) hs rfl

/-- Every step takes tokens or comes down. -/
theorem Balanced.descends (h : x.Balanced limit) (hs : x.step limit ending = some y) :
    Descends limit ending x y := by
  cases ht : x.task with
  | program =>
    simp only [State.step, ht] at hs
    split at hs
    · cases hs
    · next t more hr =>
      cases hs
      split
      · exact .of_cons hr List.suffix_rfl
      · refine .of_lt List.suffix_rfl ?_
        simp only [height, ht, hr, List.isEmpty_cons]
        exact .left _ _ (by decide)
  | statement =>
    simp only [State.step, ht, Option.some_inj] at hs
    exact hs ▸ descends_stepStatement ht
  | expression least =>
    simp only [State.step, ht, Option.some_inj] at hs
    exact hs ▸ descends_stepExpression ht
  | unary =>
    simp only [State.step, ht, Option.some_inj] at hs
    exact hs ▸ descends_stepUnary ht
  | operand =>
    simp only [State.step, ht, Option.some_inj] at hs
    exact hs ▸ descends_stepOperand ht
  | fields opening trees =>
    simp only [State.step, ht, Option.some_inj] at hs
    exact hs ▸ descends_stepFields ht
  | field before =>
    simp only [State.step, ht, Option.some_inj] at hs
    exact hs ▸ descends_stepField ht
  | value t =>
    cases hframes : x.frames with
    | nil =>
      simp only [State.step, ht, hframes, Option.some_inj] at hs
      exact hs ▸ descends_finish ht (h.of_frames_eq_nil ht hframes).2
    | cons f frames =>
      simp only [State.step, ht, hframes, Option.some_inj] at hs
      exact hs ▸ descends_resume hframes ht

/-- A later state comes round to an earlier one: the statements of a program or the fields of one
product go on, or an expression is entered, be it inside the earlier one or behind it. -/
inductive Recurs (x y : State) : Prop
  | program (hx : x.task = .program) (hy : y.task = .program)
  | fields {opening opening' : Token} {trees trees' : List SyntaxTree}
      (hx : x.task = .fields opening trees) (hy : y.task = .fields opening' trees')
      (hframes : x.frames = y.frames)
  | expression {least least' : Nat} (hx : x.task = .expression least)
      (hy : y.task = .expression least')

/-- Coming round without having taken a token is not coming down. -/
theorem Recurs.height_eq (h : x.Recurs y) (hx : x.Balanced limit) (hy : y.Balanced limit)
    (hr : y.rest = x.rest) : y.height limit ending = x.height limit ending := by
  cases h with
  | program htx hty => simp only [height, htx, hty, hr]
  | expression htx hty => simp only [height, htx, hty]
  | fields htx hty hframes =>
    have hclosers : y.closers = x.closers := by
      rw [hx.closers_eq, hy.closers_eq, htx, hty, hframes]
      rfl
    simp only [height, htx, hty, hr, hframes, surroundings, hclosers]

theorem Descends.length_lt_of_recurs (h : Descends limit ending x y) (hrecurs : x.Recurs y)
    (hx : x.Balanced limit) (hy : y.Balanced limit) : y.rest.length < x.rest.length := by
  refine Nat.lt_of_le_of_ne h.rest_suffix.length_le fun hlength => ?_
  have hr : y.rest = x.rest := h.rest_suffix.eq_of_length hlength
  exact absurd (hrecurs.height_eq hx hy hr) (h.height_lt hr).ne

end State
end LenSyntax.Machine

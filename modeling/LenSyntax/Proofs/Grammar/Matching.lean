import LenSyntax.Grammar.Recovery
import Mathlib.Algebra.BigOperators.Group.Finset.Piecewise
import Mathlib.Combinatorics.Hall.Basic

/-! Brackets that are matched. Skipping counts the brackets that are open, and a closer too many
changes nothing. None is open behind a row of tokens if and only if the brackets opened in it can be
given closers of their own, each behind its bracket: by Hall's theorem it is enough that behind no
place more brackets are opened than closed. -/
namespace LenSyntax

def TokenKind.isOpener (k : TokenKind) : Bool := k = openParen || k = openBrace

def TokenKind.isCloser (k : TokenKind) : Bool := k = closeParen || k = closeBrace

/-- The places of the tokens of some kinds. -/
def places (p : TokenKind → Bool) (w : List Token) : Finset Nat :=
  (Finset.range w.length).filter fun i => w[i]?.any (p ·.kind)

/-- Each bracket opened in a row of tokens has a closer of its own behind it, of whichever kind. -/
def Matched (w : List Token) : Prop :=
  ∃ closer : Nat → Nat, Set.InjOn closer (places TokenKind.isOpener w) ∧
    ∀ i ∈ places TokenKind.isOpener w, i < closer i ∧ closer i ∈ places TokenKind.isCloser w

/-- How many brackets are open behind a row of tokens, if so many are open in front of it. -/
def nestBehindAll (nesting : Nat) (w : List Token) : Nat :=
  w.foldl (fun nesting t => Surroundings.nestBehind nesting t.kind) nesting

/-- Behind no place more brackets are opened than closed. -/
def Outweighed (w : List Token) : Prop :=
  ∀ k, (w.drop k).countP (·.kind.isOpener) ≤ (w.drop k).countP (·.kind.isCloser)

section
variable {w : List Token} {t : Token} {nesting i : Nat}

theorem nestBehind_eq (nesting : Nat) (k : TokenKind) :
    Surroundings.nestBehind nesting k =
      if k.isOpener then nesting + 1 else if k.isCloser then nesting - 1 else nesting := by
  cases k <;> rfl

theorem TokenKind.isCloser_eq_false_of_isOpener {k : TokenKind} (h : k.isOpener) :
    k.isCloser = false := by
  cases k <;> first | rfl | cases h

theorem outweighed_cons : Outweighed (t :: w) ↔
    (t :: w).countP (·.kind.isOpener) ≤ (t :: w).countP (·.kind.isCloser) ∧ Outweighed w := by
  constructor
  · exact fun h => ⟨h 0, fun k => h (k + 1)⟩
  · rintro ⟨hzero, hsucc⟩ (_ | k)
    · exact hzero
    · exact hsucc k

theorem nestBehindAll_eq_zero_iff :
    nestBehindAll nesting w = 0 ↔
      nesting + w.countP (·.kind.isOpener) ≤ w.countP (·.kind.isCloser) ∧ Outweighed w := by
  induction w generalizing nesting with
  | nil => simp [nestBehindAll, Outweighed]
  | cons t w ih =>
    have hfold : nestBehindAll nesting (t :: w) =
        nestBehindAll (Surroundings.nestBehind nesting t.kind) w := rfl
    rw [outweighed_cons, hfold, ih, List.countP_cons, List.countP_cons, nestBehind_eq]
    by_cases hw : Outweighed w
    · have hwhole : w.countP (·.kind.isOpener) ≤ w.countP (·.kind.isCloser) := hw 0
      simp only [hw, and_true]
      by_cases hopener : t.kind.isOpener
      · rw [hopener, TokenKind.isCloser_eq_false_of_isOpener hopener]
        simp only [if_true, Bool.false_eq_true, if_false]
        omega
      · by_cases hcloser : t.kind.isCloser
        · rw [if_neg hopener, if_neg hopener, if_pos hcloser, if_pos hcloser]
          omega
        · rw [if_neg hopener, if_neg hopener, if_neg hcloser, if_neg hcloser]
          omega
    · simp only [hw, and_false]

theorem mem_places {p : TokenKind → Bool} : i ∈ places p w ↔ ∃ t, w[i]? = some t ∧ p t.kind := by
  simp only [places, Finset.mem_filter, Finset.mem_range, Option.any_eq_true, and_iff_right_iff_imp]
  rintro ⟨t, ht, -⟩
  exact (List.getElem?_eq_some_iff.1 ht).1

/-- The places from `k` on, counted. -/
theorem card_places_filter_le (p : TokenKind → Bool) (w : List Token) (k : Nat) :
    ((places p w).filter (k ≤ ·)).card = (w.drop k).countP (p ·.kind) := by
  rw [places, Finset.filter_filter, Finset.card_filter]
  induction w generalizing k with
  | nil => simp
  | cons t w ih =>
    rw [List.length_cons, Finset.sum_range_succ']
    cases k with
    | zero =>
      have h := ih 0
      simp only [Nat.zero_le, and_true, List.drop_zero] at h
      simp [h, List.countP_cons]
    | succ k =>
      have h := ih k
      simp [h]

theorem Matched.outweighed (h : Matched w) : Outweighed w := by
  intro k
  obtain ⟨closer, hinj, hcloser⟩ := h
  rw [← card_places_filter_le TokenKind.isOpener, ← card_places_filter_le TokenKind.isCloser]
  refine Finset.card_le_card_of_injOn closer (fun i hi => ?_) (hinj.mono fun i hi => ?_)
  · obtain ⟨hopens, hk⟩ := Finset.mem_filter.1 hi
    obtain ⟨hlt, hcloses⟩ := hcloser i hopens
    exact Finset.mem_filter.2 ⟨hcloses, by omega⟩
  · exact (Finset.mem_filter.1 hi).1

theorem Outweighed.matched (h : Outweighed w) : Matched w := by
  let behind (i : places TokenKind.isOpener w) : Finset Nat :=
    (places TokenKind.isCloser w).filter (i.1 ≤ ·)
  -- of several brackets those behind the first are at most the closers behind it
  have hall : ∀ opened : Finset (places TokenKind.isOpener w),
      opened.card ≤ (opened.biUnion behind).card := by
    intro opened
    obtain rfl | hne := opened.eq_empty_or_nonempty
    · simp
    obtain ⟨first, hfirst, hmin⟩ := opened.exists_min_image Subtype.val hne
    calc opened.card
        = (opened.map (.subtype _)).card := (Finset.card_map _).symm
      _ ≤ ((places TokenKind.isOpener w).filter (first.1 ≤ ·)).card := by
          apply Finset.card_le_card
          intro i hi
          obtain ⟨j, hj, rfl⟩ := Finset.mem_map.1 hi
          exact Finset.mem_filter.2 ⟨j.2, hmin j hj⟩
      _ ≤ (behind first).card := by
          rw [card_places_filter_le, card_places_filter_le]
          exact h first
      _ ≤ (opened.biUnion behind).card :=
          Finset.card_le_card (Finset.subset_biUnion_of_mem behind hfirst)
  obtain ⟨closer, hinj, hcloser⟩ :=
    (Finset.all_card_le_biUnion_card_iff_exists_injective behind).1 hall
  refine ⟨fun i => if hi : i ∈ places TokenKind.isOpener w then closer ⟨i, hi⟩ else 0, ?_, ?_⟩
  · intro i hi j hj hij
    simp only [Finset.mem_coe] at hi hj
    simp only [dif_pos hi, dif_pos hj] at hij
    exact congrArg Subtype.val (hinj hij)
  · intro i hi
    simp only [dif_pos hi]
    obtain ⟨hcloses, hle⟩ := Finset.mem_filter.1 (hcloser ⟨i, hi⟩)
    refine ⟨Nat.lt_of_le_of_ne hle fun heq => ?_, hcloses⟩
    -- a bracket is no closer
    obtain ⟨t, ht, hopener⟩ := mem_places.1 hi
    obtain ⟨u, hu, hcloser⟩ := mem_places.1 hcloses
    rw [← heq, ht] at hu
    cases hu
    rw [TokenKind.isCloser_eq_false_of_isOpener hopener] at hcloser
    exact Bool.false_ne_true hcloser

/-- No bracket is open behind a row of tokens if and only if those opened in it are matched. -/
theorem matched_iff : Matched w ↔ nestBehindAll 0 w = 0 := by
  rw [nestBehindAll_eq_zero_iff, Nat.zero_add]
  exact ⟨fun h => ⟨h.outweighed 0, h.outweighed⟩, fun h => h.2.matched⟩

instance (w : List Token) : Decidable (Matched w) := decidable_of_iff _ matched_iff.symm

end
end LenSyntax

import LenSyntax.Proofs.Grammar.Coherence
import LenSyntax.Proofs.Token.Extension

/-! How far the span of a tree reaches. It ends no earlier than the tokens that the parser has taken
for the tree, but for one: a product that nothing closes ends with its last field, and so does all
that ends with it, even where a comma behind that field has been taken. -/
namespace LenSyntax

/-- Tokens that end no later than a position; only the last one may be a comma behind it, and this
only if `may` holds. -/
inductive Fits (stop : Position) (may : Prop) : List Token → Prop
  | inside {w} (h : ∀ t ∈ w, t.span.stop.offset ≤ stop.offset) : Fits stop may w
  | trailing {w c} (hm : may) (h : ∀ t ∈ w, t.span.stop.offset ≤ stop.offset)
      (hc : c.kind = .comma) (hle : stop.offset ≤ c.span.start.offset) : Fits stop may (w ++ [c])

/-- A part may end with a comma outside of its span unless another comma follows. -/
def Part.MayTrail : Part → List Token → Prop
  | .fields, _ => True
  | _, rest => headKind? rest ≠ some .comma

namespace Fits
variable {stop : Position} {may : Prop} {w v : List Token}

theorem nil : Fits stop may [] := .inside (by simp)

theorem mono {may' : Prop} (h : Fits stop may w) (himp : may → may') : Fits stop may' w := by
  cases h with
  | inside h => exact .inside h
  | trailing hm h hc hle => exact .trailing (himp hm) h hc hle

theorem prepend (h : Fits stop may w) (hv : ∀ t ∈ v, t.span.stop.offset ≤ stop.offset) :
    Fits stop may (v ++ w) := by
  cases h with
  | inside h =>
    refine .inside fun t ht => ?_
    obtain ht | ht := List.mem_append.1 ht
    · exact hv t ht
    · exact h t ht
  | trailing hm h hc hle =>
    rw [← List.append_assoc]
    refine .trailing hm (fun t ht => ?_) hc hle
    obtain ht | ht := List.mem_append.1 ht
    · exact hv t ht
    · exact h t ht

/-- Each token either ends in time or is a comma at the end. -/
theorem stop_le_or (h : Fits stop may w) {t : Token} (ht : t ∈ w) :
    t.span.stop.offset ≤ stop.offset ∨
      t.kind = .comma ∧ w.getLast? = some t ∧ stop.offset ≤ t.span.start.offset := by
  cases h with
  | inside h => exact .inl (h t ht)
  | trailing _ h hc hle =>
    obtain ht | ht := List.mem_append.1 ht
    · exact .inl (h t ht)
    · obtain rfl := List.mem_singleton.1 ht
      exact .inr ⟨hc, by simp, hle⟩

end Fits

/-- What stands in front of a tree ends before the tree does. -/
theorem Covers.stop_le_of_mem {all more w v : List Token} {s : Surroundings}
    {q : Parsed SyntaxTree} (hq : Covers all s more v q) (hall : InOrder all s.ending.start)
    (hs : w ++ more <:+ all) : ∀ t ∈ w, t.span.stop.offset ≤ q.value.span.stop.offset := by
  intro t ht
  have hle := hall.stop_le_here hs ht
  have hord := hq.ordered
  rw [hq.start] at hord
  exact Int.le_trans hle hord

section Parses
variable {all : List Token} {s : Surroundings} {ts : List Token}

/-- An error node reaches as far as the tokens skipped. -/
theorem Surroundings.recover_fits (h : InOrder all s.ending.start) (hs : ts <:+ all)
    (fault : SyntaxFault) {may : Prop} :
    ∃ w, ts = w ++ (s.recover fault ts).rest ∧
      Fits (s.recover fault ts).value.span.stop may w := by
  obtain ⟨w, hw, hstop⟩ := s.exists_skip 0 (s.here ts).start ts
  refine ⟨w, hw, .inside ?_⟩
  simp only [recover, SyntaxTree.span_node, hstop]
  rw [hw] at hs
  cases hlast : w.getLast? with
  | none => simp [List.getLast?_eq_none_iff.1 hlast]
  | some last => exact h.stop_le_getLast? hs hlast

/-- The same holds where nothing is skipped. -/
theorem noField_fits (h : InOrder all s.ending.start) (hs : ts <:+ all) {may : Prop} :
    ∃ w, ts = w ++ (ExpressionParser.noField s ts).rest ∧
      Fits (ExpressionParser.noField s ts).value.span.stop may w := by
  unfold ExpressionParser.noField
  split
  · exact ⟨[], rfl, .nil⟩
  · exact s.recover_fits h hs _

/-- A tree that ends with another one reaches as far, with some tokens in front of that. -/
theorem Covers.exists_fits {more w v : List Token} {q : Parsed SyntaxTree} {may : Prop}
    (hq : Covers all s more v q) (hall : InOrder all s.ending.start) (hs : w ++ more <:+ all)
    (h : ∃ u, more = u ++ q.rest ∧ Fits q.value.span.stop may u) :
    ∃ u, w ++ more = u ++ q.rest ∧ Fits q.value.span.stop may u := by
  obtain ⟨u, hu, hfits⟩ := h
  exact ⟨w ++ u, by rw [List.append_assoc, ← hu],
    hfits.prepend (hq.stop_le_of_mem hall hs)⟩

/-- The span of a tree reaches as far as the tokens taken for it, but for a comma at the end. -/
theorem Parses.fits {depth : Nat} {part : Part} {p : Parsed SyntaxTree}
    (h : Parses depth s part ts p) (hall : InOrder all s.ending.start) (hs : ts <:+ all) :
    ∃ w, ts = w ++ p.rest ∧ Fits p.value.span.stop (part.MayTrail p.rest) w := by
  induction h with
  | @literal _ _ t | @name _ _ t | @invalid _ _ t => exact ⟨[t], rfl, .inside (by simp)⟩
  | @lambda _ s t arrow ts p ht ha body ih =>
    have hmore := suffix_of_cons (suffix_of_cons hs)
    obtain ⟨v, hq⟩ := body.exists_covers hall hmore
    rw [hq.token_cover_eq (w := [arrow]) hall hs]
    exact hq.exists_fits (w := [t, arrow]) hall hs (ih hall hmore)
  | @closed _ s b ts p t rest inside hr ht ih =>
    obtain ⟨w, hw, -⟩ := ih hall hs
    rw [hr, ← List.singleton_append, ← List.append_assoc] at hw
    exact ⟨w ++ [t], hw, .inside (hall.stop_le_getLast? (hw ▸ hs) (by simp))⟩
  | unclosed inside hr ih => exact ih hall hs
  | missing => exact ⟨[], rfl, .nil⟩
  | unexpected ho hsync => exact Surroundings.recover_fits hall hs _
  | @group _ s t ts p ht body hsync ih =>
    have hmore := suffix_of_cons hs
    obtain ⟨v, hq⟩ := body.exists_covers hall hmore
    exact hq.exists_fits (w := [t]) hall hs (ih hall hmore)
  | @leftover _ s t ts p q ht body hsync hq ih =>
    have hmore := suffix_of_cons hs
    obtain ⟨w, hp⟩ := body.exists_covers hall hmore
    have hrest := hp.rest_suffix hmore
    obtain ⟨v, hcovers⟩ := hq ▸ Surroundings.covers_recover hall hrest _
    have hsplit := hp.split
    subst hsplit
    exact hcovers.exists_fits (w := t :: w) hall hs (hq ▸ Surroundings.recover_fits hall hrest _)
  | @product _ s t => exact ⟨[t], rfl, .inside (by simp)⟩
  | @comma _ s ts p q t rest before he field hr ht ihb ihf =>
    obtain ⟨w, hp⟩ := before.exists_covers hall hs
    have hrest := hp.rest_suffix hs
    obtain ⟨v, hq⟩ := field.exists_covers hall hrest
    have hstop := hq.stop_le
    have hsplit := hp.split
    subst hsplit
    obtain ⟨u, hu, hfits⟩ := hq.exists_fits hall hs (ihf hall hrest)
    rw [hr] at hu hstop
    -- in front of a comma the field itself has no comma at its end
    cases hfits with
    | inside h =>
      refine ⟨u ++ [t], by rw [hu, List.append_assoc]; rfl, ?_⟩
      exact .trailing trivial h ht hstop
    | trailing hm => exact absurd (by simp [hr, ht]) hm
  | @skip _ s ts p q r before he field hc hsync hr ihb ihf =>
    obtain ⟨w, hp⟩ := before.exists_covers hall hs
    have hrest := hp.rest_suffix hs
    obtain ⟨v, hq⟩ := field.exists_covers hall hrest
    have hrest' := hq.rest_suffix hrest
    obtain ⟨u, hcovers⟩ := hr ▸ Surroundings.covers_recover hall hrest' _
    have hsplit : ts = (w ++ v) ++ q.rest := by rw [hp.split, hq.split, List.append_assoc]
    subst hsplit
    exact hcovers.exists_fits hall hs (hr ▸ Surroundings.recover_fits hall hrest' _)
  | @lastField _ s ts p q before he field hc hsync ihb ihf =>
    obtain ⟨w, hp⟩ := before.exists_covers hall hs
    have hrest := hp.rest_suffix hs
    obtain ⟨v, hq⟩ := field.exists_covers hall hrest
    have hsplit := hp.split
    subst hsplit
    exact hq.exists_fits hall hs (ihf hall hrest)
  | @noField _ s ts p before he ih =>
    obtain ⟨w, hw, hfits⟩ := ih hall hs
    have hcomma : headKind? p.rest ≠ some .comma := by
      rintro h
      simp [Surroundings.endsFields, h] at he
    exact ⟨w, hw, hfits.mono fun _ => hcomma⟩
  | @field _ s before t colon ts p ht hc value ih =>
    have hmore := suffix_of_cons (suffix_of_cons hs)
    obtain ⟨v, hq⟩ := value.exists_covers hall hmore
    rw [hq.token_cover_eq (w := [colon]) hall hs]
    exact hq.exists_fits (w := [t, colon]) hall hs (ih hall hmore)
  | notField hn => exact noField_fits hall hs
  | function operand ih => exact ih hall hs
  | @call _ s ts p q function ho argument ihf iha =>
    obtain ⟨w, hp⟩ := function.exists_covers hall hs
    have hrest := hp.rest_suffix hs
    obtain ⟨v, hq⟩ := argument.exists_covers hall hrest
    rw [hp.cover_eq hq (Int.le_refl _)]
    have hsplit := hp.split
    subst hsplit
    exact hq.exists_fits hall hs (iha hall hrest)
  | application calls ho ih => exact ih hall hs
  | unary application hu ih => exact ih hall hs
  | @negate _ s t ts p ht operand ih =>
    have hmore := suffix_of_cons hs
    obtain ⟨v, hq⟩ := operand.exists_covers hall hmore
    rw [ExpressionParser.negate, hq.token_cover_eq (w := []) hall hs]
    exact hq.exists_fits (w := [t]) hall hs (ih hall hmore)
  | first operand ih => exact ih hall hs
  | @operation _ s least ts p t rest operator q left hr ht hl right ihl ihr =>
    obtain ⟨w, hp⟩ := left.exists_covers hall hs
    have hrest := hp.rest_suffix hs
    rw [hr] at hrest
    have hmore := suffix_of_cons hrest
    obtain ⟨v, hq⟩ := right.exists_covers hall hmore
    rw [hp.cover_eq hq (by rw [hr]; exact hall.here_le_here (w := [t]) hrest)]
    have hsplit : ts = (w ++ [t]) ++ rest := by rw [hp.split, hr, List.append_assoc]; rfl
    subst hsplit
    exact hq.exists_fits hall hs (ihr hall hmore)
  | expression operations hn ih => exact ih hall hs
  | tooDeep => exact Surroundings.recover_fits hall hs _
  | @binding _ s t mark ts p ht hm value ih =>
    have hmore := suffix_of_cons (suffix_of_cons hs)
    obtain ⟨v, hq⟩ := value.exists_covers hall hmore
    rw [hq.token_cover_eq (w := [mark]) hall hs]
    exact hq.exists_fits (w := [t, mark]) hall hs (ih hall hmore)
  | bare hn value ih => exact ih hall hs

end Parses

end LenSyntax

import LenSyntax.Proofs.Grammar.Agreement
import LenSyntax.Proofs.Grammar.Language

/-! What is read without an error is derivable. -/
namespace LenSyntax

/-- What the inside of a bracket derives from. -/
def Bracket.inner : Bracket → Nonterminal
  | paren => .expression
  | brace => .fieldList

/-- The tokens read, those of `ts` in front of `rest`, derive from a nonterminal. -/
def DerivesUpTo (n : Nonterminal) (ts rest : List Token) : Prop :=
  ∃ w, ts = w ++ rest ∧ Derives n w

/-- The fields in front of the next one: none, or some that end with a comma. -/
def FieldsBefore (w : List Token) : Prop :=
  w = [] ∨ ∃ v c, w = v ++ [c] ∧ Derives .fields v ∧ c.kind = .comma

namespace FieldsBefore
variable {w v : List Token} {c : Token}

theorem fieldList (h : FieldsBefore w) : Derives .fieldList w := by
  obtain rfl | ⟨v, c, rfl, hv, hc⟩ := h
  · exact .noField
  · exact .trailing hv hc

theorem fields (h : FieldsBefore w) (hv : Derives .field v) : Derives .fields (w ++ v) := by
  obtain rfl | ⟨u, c, rfl, hu, hc⟩ := h
  · exact .oneField hv
  · rw [List.append_assoc]
    exact .moreFields hu hc hv

theorem comma (h : FieldsBefore w) (hv : Derives .field v) (hc : c.kind = .comma) :
    FieldsBefore (w ++ v ++ [c]) := .inr ⟨w ++ v, c, rfl, h.fields hv, hc⟩

end FieldsBefore

/-- What the tokens of a part derive from. -/
def DerivesPart (ts rest : List Token) : Part → Prop
  | .operand => DerivesUpTo .atom ts rest
  | .calls | .application => DerivesUpTo .application ts rest
  | .unary => DerivesUpTo .unary ts rest
  | .operations _ | .expression _ => DerivesUpTo .expression ts rest
  | .field _ => DerivesUpTo .field ts rest
  | .fields => ∃ o w, ts = o :: (w ++ rest) ∧ o.kind = .openBrace ∧ FieldsBefore w
  | .inside b => ∃ o w, ts = o :: (w ++ rest) ∧ o.kind = b.opener ∧ Derives b.inner w
  | .statement => DerivesUpTo .statement ts rest

@[simp] theorem Surroundings.hasErrors_missing (s : Surroundings) (fault : SyntaxFault)
    (ts : List Token) : Diagnostics.hasErrors (s.missing fault ts).diagnostics = true := rfl

@[simp] theorem Surroundings.hasErrors_recover (s : Surroundings) (fault : SyntaxFault)
    (ts : List Token) : Diagnostics.hasErrors (s.recover fault ts).diagnostics = true := rfl

@[simp] theorem hasErrors_noField (s : Surroundings) (ts : List Token) :
    Diagnostics.hasErrors (ExpressionParser.noField s ts).diagnostics = true := by
  unfold ExpressionParser.noField
  split <;> rfl

theorem TokenKind.isAtom_of_literal? {k : TokenKind} {kind : NodeKind}
    (h : k.literal? = some kind) : k.isAtom := by
  cases k <;> first | rfl | cases h

/-- The tokens that a part reads without an error derive from its nonterminal. -/
theorem Parses.derives {depth : Nat} {s : Surroundings} {part : Part} {ts : List Token}
    {p : Parsed SyntaxTree} (h : Parses depth s part ts p)
    (hp : Diagnostics.hasErrors p.diagnostics = false) : DerivesPart ts p.rest part := by
  induction h with
  | @literal _ _ t _ _ ht => exact ⟨[t], rfl, .token (TokenKind.isAtom_of_literal? ht)⟩
  | @name _ _ t _ ht _ => exact ⟨[t], rfl, .token (by rw [ht]; rfl)⟩
  | @invalid _ _ t _ ht => exact ⟨[t], rfl, .token (by rw [ht]; rfl)⟩
  | @lambda _ _ t arrow _ _ ht ha body ih =>
    obtain ⟨w, rfl, hw⟩ := ih hp
    exact ⟨t :: arrow :: w, rfl, .lambda ht ha hw⟩
  | @closed _ _ b ts p t rest inside hr ht ih =>
    obtain ⟨o, w, rfl, ho, hw⟩ := ih hp
    refine ⟨o :: (w ++ [t]), by simp [hr], ?_⟩
    cases b with
    | paren => exact .group ho hw ht
    | brace => exact .product ho hw ht
  | unclosed inside hr ih => simp at hp
  | missing ho hs => simp at hp
  | unexpected ho hs => simp at hp
  | @group _ _ t _ _ ht body hs ih =>
    obtain ⟨w, rfl, hw⟩ := ih hp
    exact ⟨t, w, rfl, ht, hw⟩
  | leftover ht body hs hq ih => simp [hq] at hp
  | @product _ _ t _ ht => exact ⟨t, [], rfl, ht, .inl rfl⟩
  | @comma _ _ ts p q t rest before he field hr ht ihb ihf =>
    simp only [Parsed.adding, Diagnostics.hasErrors_append, Bool.or_eq_false_iff] at hp
    obtain ⟨o, w, rfl, ho, hw⟩ := ihb hp.1
    obtain ⟨v, hpr, hv⟩ := ihf hp.2
    exact ⟨o, w ++ v ++ [t], by simp [hpr, hr], ho, hw.comma hv ht⟩
  | skip before he field hc hs hr ihb ihf => simp [Parsed.adding, hr] at hp
  | @lastField _ _ ts p q before he field hc hs ihb ihf =>
    simp only [Parsed.adding, Diagnostics.hasErrors_append, Bool.or_eq_false_iff] at hp
    obtain ⟨o, w, rfl, ho, hw⟩ := ihb hp.1
    obtain ⟨v, hpr, hv⟩ := ihf hp.2
    exact ⟨o, w ++ v, by simp [hpr], ho, .fieldList (hw.fields hv)⟩
  | noField before he ih =>
    obtain ⟨o, w, rfl, ho, hw⟩ := ih hp
    exact ⟨o, w, rfl, ho, hw.fieldList⟩
  | @field _ _ _ t colon _ _ ht hc value ih =>
    simp only [Diagnostics.hasErrors_append, Bool.or_eq_false_iff] at hp
    obtain ⟨w, rfl, hw⟩ := ih hp.1
    exact ⟨t :: colon :: w, rfl, .field ht hc hw⟩
  | notField hn => simp at hp
  | function operand ih =>
    obtain ⟨w, rfl, hw⟩ := ih hp
    exact ⟨w, rfl, .function hw⟩
  | call function ho argument ihf iha =>
    simp only [Diagnostics.hasErrors_append, Bool.or_eq_false_iff] at hp
    obtain ⟨w, rfl, hw⟩ := ihf hp.1
    obtain ⟨v, hpr, hv⟩ := iha hp.2
    exact ⟨w ++ v, by simp [hpr], .call hw hv⟩
  | application calls ho ih => exact ih hp
  | unary application hu ih =>
    obtain ⟨w, rfl, hw⟩ := ih hp
    exact ⟨w, rfl, .application hw⟩
  | @negate _ _ t _ _ ht operand ih =>
    obtain ⟨w, rfl, hw⟩ := ih hp
    exact ⟨t :: w, rfl, .negate ht hw⟩
  | first operand ih =>
    obtain ⟨w, rfl, hw⟩ := ih hp
    exact ⟨w, rfl, .operand hw⟩
  | @operation _ _ _ _ _ t _ _ _ left hr ht hl right ihl ihr =>
    simp only [Diagnostics.hasErrors_append, Bool.or_eq_false_iff] at hp
    obtain ⟨w, rfl, hw⟩ := ihl hp.1
    obtain ⟨v, rfl, hv⟩ := ihr hp.2
    exact ⟨w ++ t :: v, by simp [hr], hw.operation_expression (by rw [ht]; rfl) hv⟩
  | expression operations hn ih => exact ih hp
  | tooDeep => simp at hp
  | @binding _ _ t mark _ _ ht hm value ih =>
    obtain ⟨w, rfl, hw⟩ := ih hp
    exact ⟨t :: mark :: w, rfl, .binding ht hm hw⟩
  | bare hn value ih =>
    obtain ⟨w, rfl, hw⟩ := ih hp
    exact ⟨w, rfl, .bare hw⟩

/-- Statements that are read without an error are derivable. -/
theorem ParsesStatements.derives {depth : Nat} {s : Surroundings} {ts : List Token}
    {p : Parsed (List SyntaxTree)} (h : ParsesStatements depth s ts p)
    (hp : Diagnostics.hasErrors p.diagnostics = false) : Derives .program ts := by
  induction h with
  | nil => exact .empty
  | semicolon ht more ih => exact .semicolon ht (ih hp)
  | last ht one hr =>
    obtain ⟨w, hw, hs⟩ := one.derives hp
    rw [hr, List.append_nil] at hw
    exact hw ▸ .last hs
  | next ht one hr hm more ih =>
    rw [Diagnostics.hasErrors_append, Bool.or_eq_false_iff] at hp
    obtain ⟨w, hw, hs⟩ := one.derives hp.1
    rw [hr] at hw
    exact hw ▸ .next hs hm (ih hp.2)
  | skip ht one hr hu hskip more ih => simp [hskip] at hp

end LenSyntax

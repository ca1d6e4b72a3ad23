import LenSyntax.Proofs.Grammar.Language

/-! The grammar as the parser goes through it, from the left to the right: after each token it says
what may follow. A lambda extends as far as it can, so whatever stands behind its body belongs to
the body (`Spells.append`). -/
namespace LenSyntax

/-- Where a reader is. `tail` is behind an operand, `fields` in front of the next field of a
product. -/
inductive Place where
  | statement
  | start
  | operand
  | tail
  | fields
  deriving DecidableEq

/-- `Spells place w`: from the given place on, the tokens `w` complete a statement, an expression or
the inside of a product. -/
inductive Spells : Place → List Token → Prop
  | binding {t mark w} (ht : t.kind = .identifier) (hm : mark.kind = .bind)
      (value : Spells .start w) : Spells .statement (t :: mark :: w)
  | bare {w} (value : Spells .start w) : Spells .statement w
  | negate {t w} (ht : t.isUnaryOperator) (more : Spells .start w) : Spells .start (t :: w)
  | operand {w} (operand : Spells .operand w) : Spells .start w
  | token {t w} (ht : t.kind.isAtom) (more : Spells .tail w) : Spells .operand (t :: w)
  | lambda {t arrow w} (ht : t.kind = .identifier) (ha : arrow.kind = .arrow)
      (body : Spells .start w) : Spells .operand (t :: arrow :: w)
  | group {o w c v} (ho : o.kind = .openParen) (inner : Spells .start w)
      (hc : c.kind = .closeParen) (more : Spells .tail v) : Spells .operand (o :: (w ++ c :: v))
  | product {o w c v} (ho : o.kind = .openBrace) (inner : Spells .fields w)
      (hc : c.kind = .closeBrace) (more : Spells .tail v) : Spells .operand (o :: (w ++ c :: v))
  | done : Spells .tail []
  | operator {t w} (ht : t.binaryOperator?.isSome) (right : Spells .start w) :
      Spells .tail (t :: w)
  | argument {w} (argument : Spells .operand w) : Spells .tail w
  | noField : Spells .fields []
  | lastField {t colon w} (ht : t.kind = .identifier) (hc : colon.kind = .colon)
      (value : Spells .start w) : Spells .fields (t :: colon :: w)
  | comma {t colon w c v} (ht : t.kind = .identifier) (hk : colon.kind = .colon)
      (value : Spells .start w) (hc : c.kind = .comma) (more : Spells .fields v) :
      Spells .fields (t :: colon :: (w ++ c :: v))

/-- The stages of an expression. -/
def Place.inExpression (place : Place) : Bool := place ∈ [start, operand, tail]

namespace Spells

/-- An expression goes on where one may go on behind an operand. -/
theorem append {place : Place} {w v : List Token} (h : Spells place w)
    (hs : place.inExpression) (hv : Spells .tail v) : Spells place (w ++ v) := by
  induction h with
  | binding => cases hs
  | bare => cases hs
  | negate ht more ih => exact .negate ht (ih rfl)
  | operand operand ih => exact .operand (ih rfl)
  | token ht more ih => exact .token ht (ih rfl)
  | lambda ht ha body ih => exact .lambda ht ha (ih rfl)
  | group ho inner hc more _ ih =>
    rw [List.cons_append, List.append_assoc]
    exact .group ho inner hc (ih rfl)
  | product ho inner hc more _ ih =>
    rw [List.cons_append, List.append_assoc]
    exact .product ho inner hc (ih rfl)
  | done => exact hv
  | operator ht right ih => exact .operator ht (ih rfl)
  | argument argument ih => exact .argument (ih rfl)
  | noField => cases hs
  | lastField => cases hs
  | comma => cases hs

end Spells

/-- What the derivable tokens spell. Behind some fields, others may follow a comma. -/
def SpellsAs (w : List Token) : Nonterminal → Prop
  | .program => True
  | .statement => Spells .statement w
  | .expression | .unary => Spells .start w
  | .application | .atom => Spells .operand w
  | .fieldList => Spells .fields w
  | .fields => Spells .fields w ∧ ∀ c v, c.kind = .comma → Spells .fields v →
      Spells .fields (w ++ c :: v)
  | .field => ∃ t colon v, w = t :: colon :: v ∧ t.kind = .identifier ∧ colon.kind = .colon ∧
      Spells .start v

theorem Derives.spells {n : Nonterminal} {w : List Token} (h : Derives n w) : SpellsAs w n := by
  induction h with
  | empty => trivial
  | semicolon hm program ih => trivial
  | last statement ih => trivial
  | next statement hm program ihs ihp => trivial
  | binding ht hm value ih => exact .binding ht hm ih
  | bare value ih => exact .bare ih
  | operand unary ih => exact ih
  | operation left ht right ihl ihr => exact Spells.append ihl rfl (.operator ht ihr)
  | negate ht operand ih => exact .negate ht ih
  | application application ih => exact .operand ih
  | function atom ih => exact ih
  | call function argument ihf iha => exact Spells.append ihf rfl (.argument iha)
  | token ht => exact .token ht .done
  | lambda ht ha body ih => exact .lambda ht ha ih
  | group ho inner hc ih => exact .group ho ih hc .done
  | product ho inner hc ih => exact .product ho ih hc .done
  | noField => exact .noField
  | fieldList fields ih => exact ih.1
  | trailing fields hc ih => exact ih.2 _ [] hc .noField
  | oneField field ih =>
    obtain ⟨t, colon, v, rfl, ht, hc, hv⟩ := ih
    exact ⟨.lastField ht hc hv, fun c u hcc hu => .comma ht hc hv hcc hu⟩
  | @moreFields w c v fields hc field ihs ih =>
    obtain ⟨t, colon, v, rfl, ht, hk, hv⟩ := ih
    refine ⟨ihs.2 c _ hc (.lastField ht hk hv), ?_⟩
    intro d u hd hu
    rw [List.append_assoc]
    exact ihs.2 c _ hc (.comma ht hk hv hd hu)
  | field ht hc value ih => exact ⟨_, _, _, rfl, ht, hc, ih⟩

end LenSyntax

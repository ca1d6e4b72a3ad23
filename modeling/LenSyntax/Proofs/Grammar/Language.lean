import LenSyntax.Proofs.Grammar.Rules

/-! The grammar of programs over tokens. It says nothing of precedence, of depth or of errors; a
lambda may end wherever its body can. -/
namespace LenSyntax

/-- The nonterminals. `fieldList` is the inside of a product, `fields` are at least one. -/
inductive Nonterminal where
  | program
  | statement
  | expression
  | unary
  | application
  | atom
  | fieldList
  | fields
  | field
  deriving DecidableEq

/-- The tokens that are atoms by themselves. An error token stands for a malformed literal. -/
def TokenKind.isAtom (k : TokenKind) : Bool := k ∈ [number, string, keyword, identifier, error]

/-- `Derives n w`: the tokens `w` can be derived from the nonterminal `n`. -/
inductive Derives : Nonterminal → List Token → Prop
  | empty : Derives .program []
  | semicolon {m w} (hm : m.kind = .semicolon) (program : Derives .program w) :
      Derives .program (m :: w)
  | last {w} (statement : Derives .statement w) : Derives .program w
  | next {w m v} (statement : Derives .statement w) (hm : m.kind = .semicolon)
      (program : Derives .program v) : Derives .program (w ++ m :: v)
  | binding {t mark w} (ht : t.kind = .identifier) (hm : mark.kind = .bind)
      (value : Derives .expression w) : Derives .statement (t :: mark :: w)
  | bare {w} (value : Derives .expression w) : Derives .statement w
  | operand {w} (unary : Derives .unary w) : Derives .expression w
  | operation {w t v} (left : Derives .expression w) (ht : t.binaryOperator?.isSome)
      (right : Derives .unary v) : Derives .expression (w ++ t :: v)
  | negate {t w} (ht : t.isUnaryOperator) (operand : Derives .unary w) : Derives .unary (t :: w)
  | application {w} (application : Derives .application w) : Derives .unary w
  | function {w} (atom : Derives .atom w) : Derives .application w
  | call {w v} (function : Derives .application w) (argument : Derives .atom v) :
      Derives .application (w ++ v)
  | token {t} (ht : t.kind.isAtom) : Derives .atom [t]
  | lambda {t arrow w} (ht : t.kind = .identifier) (ha : arrow.kind = .arrow)
      (body : Derives .expression w) : Derives .atom (t :: arrow :: w)
  | group {o w c} (ho : o.kind = .openParen) (inner : Derives .expression w)
      (hc : c.kind = .closeParen) : Derives .atom (o :: (w ++ [c]))
  | product {o w c} (ho : o.kind = .openBrace) (inner : Derives .fieldList w)
      (hc : c.kind = .closeBrace) : Derives .atom (o :: (w ++ [c]))
  | noField : Derives .fieldList []
  | fieldList {w} (fields : Derives .fields w) : Derives .fieldList w
  | trailing {w c} (fields : Derives .fields w) (hc : c.kind = .comma) :
      Derives .fieldList (w ++ [c])
  | oneField {w} (field : Derives .field w) : Derives .fields w
  | moreFields {w c v} (fields : Derives .fields w) (hc : c.kind = .comma)
      (field : Derives .field v) : Derives .fields (w ++ c :: v)
  | field {t colon w} (ht : t.kind = .identifier) (hc : colon.kind = .colon)
      (value : Derives .expression w) : Derives .field (t :: colon :: w)

/-- An operation may have a whole expression on its right. -/
theorem Derives.operation_expression {w v : List Token} {t : Token}
    (left : Derives .expression w) (ht : t.binaryOperator?.isSome)
    (right : Derives .expression v) : Derives .expression (w ++ t :: v) := by
  generalize hn : Nonterminal.expression = n at right
  induction right with
  | operand unary => exact .operation left ht unary
  | operation left' ht' right' ih =>
    rw [← List.cons_append, ← List.append_assoc]
    exact .operation (ih hn) ht' right'
  | _ => cases hn

end LenSyntax

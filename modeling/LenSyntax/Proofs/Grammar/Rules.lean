import LenSyntax.Grammar.Program

/-! The rules of the parser, one for each thing that it can do in front of given tokens. A rule
holds every condition under which the parser does so, what it builds and what it reports; brackets
and rows of operands grow from the left, as the parser reads them. -/
namespace LenSyntax

/-- The kind of the next token. -/
def headKind? (ts : List Token) : Option TokenKind := ts.head?.map (·.kind)

@[simp] theorem headKind?_nil : headKind? [] = none := rfl
@[simp] theorem headKind?_cons (t : Token) (ts : List Token) :
    headKind? (t :: ts) = some t.kind := rfl

namespace TokenKind

/-- The node of a literal. -/
def literal? : TokenKind → Option NodeKind
  | number => some .number
  | string => some .string
  | keyword => some .boolean
  | _ => none

/-- Whether an operand starts with such a token. -/
def startsOperand (k : TokenKind) : Bool :=
  k ∈ [number, string, keyword, identifier, openParen, openBrace, error]

end TokenKind

/-- Whether an operand comes next. -/
def startsOperand (ts : List Token) : Bool := (headKind? ts).any TokenKind.startsOperand

/-- Whether an operator in front of an operand comes next. -/
def startsUnary (ts : List Token) : Bool := ts.head?.any Token.isUnaryOperator

/-- Whether a name comes next, with a mark behind it. -/
def startsNamed (mark : TokenKind) : List Token → Bool
  | t :: u :: _ => t.kind = .identifier && u.kind = mark
  | _ => false

/-- No operator of at least a given precedence comes next. -/
def NoOperator (least : Nat) (ts : List Token) : Prop :=
  ∀ t ∈ ts.head?, ∀ operator ∈ t.binaryOperator?, operator.precedence < least

theorem Token.kind_of_binaryOperator? {t : Token} (h : t.binaryOperator?.isSome) :
    t.kind = .symbol := by
  unfold binaryOperator? at h
  split at h
  · assumption
  · cases h

theorem Token.kind_of_isUnaryOperator {t : Token} (h : t.isUnaryOperator) : t.kind = .symbol := by
  simp only [isUnaryOperator, Bool.and_eq_true, decide_eq_true_eq] at h
  exact h.1

/-- The two kinds of brackets. -/
inductive Bracket where
  | paren
  | brace
  deriving DecidableEq

namespace Bracket

@[reducible] def node : Bracket → NodeKind
  | paren => .group
  | brace => .product

@[reducible] def opener : Bracket → TokenKind
  | paren => .openParen
  | brace => .openBrace

@[reducible] def closer : Bracket → TokenKind
  | paren => .closeParen
  | brace => .closeBrace

/-- What the inside of a bracket waits for. -/
@[reducible] def awaited : Bracket → List TokenKind
  | paren => [.closeParen]
  | brace => [.closeBrace, .comma]

/-- The closer is missing; the bracket was opened at the given position. -/
@[reducible] def unclosed : Bracket → Position → SyntaxFault
  | paren => .openGroup
  | brace => .openProduct

end Bracket

/-- Whether no further field of a product is read. -/
def Surroundings.endsFields (s : Surroundings) (ts : List Token) : Bool :=
  headKind? ts = some .closeBrace || (s.atSync ts && headKind? ts ≠ some .comma)

/-- A product that is being read, with further trees at its end. -/
def Parsed.adding (p : Parsed SyntaxTree) (more : Parsed (List SyntaxTree)) :
    Parsed SyntaxTree where
  value := .node .product []
    ⟨p.value.span.start, (more.value.getLast?.map (·.span.stop)).getD p.value.span.stop⟩
    (p.value.children ++ more.value)
  diagnostics := p.diagnostics ++ more.diagnostics
  rest := more.rest

/-- What a rule reads. `calls`, `operations` and `fields` may be read further; `inside` is a bracket
with all in front of its closer. -/
inductive Part where
  | operand
  | calls
  | application
  | unary
  | operations (least : Nat)
  | expression (least : Nat)
  | field (before : List SyntaxTree)
  | fields
  | inside (bracket : Bracket)
  | statement

open SyntaxTree ExpressionParser

/-- `Parses depth s part ts p`: in front of the tokens `ts` the parser can read a part, with the
outcome `p`, when the expressions inside it may nest `depth` deep. -/
inductive Parses : Nat → Surroundings → Part → List Token → Parsed SyntaxTree → Prop
  | literal {depth s t ts kind} (ht : t.kind.literal? = some kind) :
      Parses depth s .operand (t :: ts) ⟨node kind t.value t.span [], [], ts⟩
  | name {depth s t ts} (ht : t.kind = .identifier) (ha : headKind? ts ≠ some .arrow) :
      Parses depth s .operand (t :: ts) ⟨node .identifier t.value t.span [], [], ts⟩
  | invalid {depth s t ts} (ht : t.kind = .error) :
      Parses depth s .operand (t :: ts)
        ⟨node .error (SyntaxFault.invalidToken t.raw).message t.span [], [], ts⟩
  | lambda {depth s t arrow ts p} (ht : t.kind = .identifier) (ha : arrow.kind = .arrow)
      (body : Parses depth s (.expression lowestPrecedence) ts p) :
      Parses depth s .operand (t :: arrow :: ts)
        ⟨node .lambda t.value (.cover t.span p.value.span) [p.value], p.diagnostics, p.rest⟩
  | closed {depth s b ts p t rest} (inside : Parses depth (s.within b.awaited) (.inside b) ts p)
      (hr : p.rest = t :: rest) (ht : t.kind = b.closer) :
      Parses depth s .operand ts
        ⟨node b.node [] ⟨p.value.span.start, t.span.stop⟩ p.value.children, p.diagnostics, rest⟩
  | unclosed {depth s b ts p} (inside : Parses depth (s.within b.awaited) (.inside b) ts p)
      (hr : headKind? p.rest ≠ some b.closer) :
      Parses depth s .operand ts
        ⟨node b.node [] p.value.span p.value.children,
          p.diagnostics ++ [.error (b.unclosed p.value.span.start).message (s.here p.rest)],
          p.rest⟩
  | missing {depth s ts} (ho : ¬ startsOperand ts) (hs : s.atSync ts) :
      Parses depth s .operand ts (s.missing .missingExpression ts)
  | unexpected {depth s ts} (ho : ¬ startsOperand ts) (hs : ¬ s.atSync ts) :
      Parses depth s .operand ts (s.recover (.unexpected (.ofHead ts)) ts)
  | group {depth s t ts p} (ht : t.kind = .openParen)
      (body : Parses depth s (.expression lowestPrecedence) ts p) (hs : s.atSync p.rest) :
      Parses depth s (.inside .paren) (t :: ts)
        ⟨node .group [] ⟨t.span.start, p.value.span.stop⟩ [p.value], p.diagnostics, p.rest⟩
  | leftover {depth s t ts p q} (ht : t.kind = .openParen)
      (body : Parses depth s (.expression lowestPrecedence) ts p) (hs : ¬ s.atSync p.rest)
      (hq : q = s.recover (.unexpected (.ofHead p.rest)) p.rest) :
      Parses depth s (.inside .paren) (t :: ts)
        ⟨node .group [] ⟨t.span.start, q.value.span.stop⟩ [p.value, q.value],
          p.diagnostics ++ q.diagnostics, q.rest⟩
  | product {depth s t ts} (ht : t.kind = .openBrace) :
      Parses depth s .fields (t :: ts) ⟨node .product [] t.span [], [], ts⟩
  | comma {depth s ts p q t rest} (before : Parses depth s .fields ts p)
      (he : ¬ s.endsFields p.rest) (field : Parses depth s (.field p.value.children) p.rest q)
      (hr : q.rest = t :: rest) (ht : t.kind = .comma) :
      Parses depth s .fields ts (p.adding ⟨[q.value], q.diagnostics, rest⟩)
  | skip {depth s ts p q r} (before : Parses depth s .fields ts p)
      (he : ¬ s.endsFields p.rest) (field : Parses depth s (.field p.value.children) p.rest q)
      (hc : headKind? q.rest ≠ some .comma) (hs : ¬ s.atSync q.rest)
      (hr : r = s.recover (.afterField (.ofHead q.rest)) q.rest) :
      Parses depth s .fields ts
        (p.adding ⟨[q.value, r.value], q.diagnostics ++ r.diagnostics, r.rest⟩)
  | lastField {depth s ts p q} (before : Parses depth s .fields ts p)
      (he : ¬ s.endsFields p.rest) (field : Parses depth s (.field p.value.children) p.rest q)
      (hc : headKind? q.rest ≠ some .comma) (hs : s.atSync q.rest) :
      Parses depth s (.inside .brace) ts (p.adding ⟨[q.value], q.diagnostics, q.rest⟩)
  | noField {depth s ts p} (before : Parses depth s .fields ts p) (he : s.endsFields p.rest) :
      Parses depth s (.inside .brace) ts p
  | field {depth s before t colon ts p} (ht : t.kind = .identifier) (hc : colon.kind = .colon)
      (value : Parses depth s (.expression lowestPrecedence) ts p) :
      Parses depth s (.field before) (t :: colon :: ts)
        ⟨node .field t.value (.cover t.span p.value.span) [p.value],
          p.diagnostics ++ (if hasField t.value before then
            [.warning (SyntaxFault.duplicateField t.value).message t.span] else []), p.rest⟩
  | notField {depth s before ts} (hn : ¬ startsNamed .colon ts) :
      Parses depth s (.field before) ts (ExpressionParser.noField s ts)
  | function {depth s ts p} (operand : Parses depth s .operand ts p) : Parses depth s .calls ts p
  | call {depth s ts p q} (function : Parses depth s .calls ts p) (ho : startsOperand p.rest)
      (argument : Parses depth s .operand p.rest q) :
      Parses depth s .calls ts
        ⟨node .call [] (.cover p.value.span q.value.span) [p.value, q.value],
          p.diagnostics ++ q.diagnostics, q.rest⟩
  | application {depth s ts p} (calls : Parses depth s .calls ts p)
      (ho : ¬ startsOperand p.rest) : Parses depth s .application ts p
  | unary {depth s ts p} (application : Parses depth s .application ts p)
      (hu : ¬ startsUnary ts) : Parses depth s .unary ts p
  | negate {depth s t ts p} (ht : t.isUnaryOperator) (operand : Parses depth s .unary ts p) :
      Parses depth s .unary (t :: ts) ⟨negate t p.value, p.diagnostics, p.rest⟩
  | first {depth s least ts p} (operand : Parses depth s .unary ts p) :
      Parses depth s (.operations least) ts p
  | operation {depth s least ts p t rest operator q}
      (left : Parses depth s (.operations least) ts p) (hr : p.rest = t :: rest)
      (ht : t.binaryOperator? = some operator) (hl : least ≤ operator.precedence)
      (right : Parses depth s (.expression operator.rightLeast) rest q) :
      Parses depth s (.operations least) ts
        ⟨node .binary t.value (.cover p.value.span q.value.span) [p.value, q.value],
          p.diagnostics ++ q.diagnostics, q.rest⟩
  | expression {depth s least ts p} (operations : Parses depth s (.operations least) ts p)
      (hn : NoOperator least p.rest) : Parses (depth + 1) s (.expression least) ts p
  | tooDeep {s least ts} :
      Parses 0 s (.expression least) ts (s.recover (.tooDeep s.limit) ts)
  | binding {depth s t mark ts p} (ht : t.kind = .identifier) (hm : mark.kind = .bind)
      (value : Parses depth s (.expression lowestPrecedence) ts p) :
      Parses depth s .statement (t :: mark :: ts)
        ⟨node .binding t.value (.cover t.span p.value.span) [p.value], p.diagnostics, p.rest⟩
  | bare {depth s ts p} (hn : ¬ startsNamed .bind ts)
      (value : Parses depth s (.expression lowestPrecedence) ts p) :
      Parses depth s .statement ts p

/-- `ParsesStatements depth s ts p`: the parser can read the tokens `ts` as statements with
semicolons between them, with the outcome `p`. -/
inductive ParsesStatements (depth : Nat) (s : Surroundings) :
    List Token → Parsed (List SyntaxTree) → Prop
  | nil : ParsesStatements depth s [] ⟨[], [], []⟩
  | semicolon {t ts p} (ht : t.kind = .semicolon) (more : ParsesStatements depth s ts p) :
      ParsesStatements depth s (t :: ts) p
  | last {t ts p} (ht : t.kind ≠ .semicolon) (one : Parses depth s .statement (t :: ts) p)
      (hr : p.rest = []) : ParsesStatements depth s (t :: ts) ⟨[p.value], p.diagnostics, []⟩
  | next {t ts p m rest q} (ht : t.kind ≠ .semicolon)
      (one : Parses depth s .statement (t :: ts) p) (hr : p.rest = m :: rest)
      (hm : m.kind = .semicolon) (more : ParsesStatements depth s rest q) :
      ParsesStatements depth s (t :: ts)
        ⟨p.value :: q.value, p.diagnostics ++ q.diagnostics, q.rest⟩
  | skip {t ts p u rest r q} (ht : t.kind ≠ .semicolon)
      (one : Parses depth s .statement (t :: ts) p) (hr : p.rest = u :: rest)
      (hu : u.kind ≠ .semicolon)
      (hskip : r = s.recover (.afterStatement (.token u.raw)) (u :: rest))
      (more : ParsesStatements depth s r.rest q) :
      ParsesStatements depth s (t :: ts)
        ⟨p.value :: r.value :: q.value, p.diagnostics ++ r.diagnostics ++ q.diagnostics, q.rest⟩

end LenSyntax

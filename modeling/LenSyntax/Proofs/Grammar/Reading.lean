import LenSyntax.Proofs.Grammar.Rules
import LenSyntax.Proofs.Token.Order

/-! Reading the tokens of a source off its tree. Each node says which tokens stand in front of its
children, between them and behind them, and where. -/
namespace LenSyntax

namespace Token

/-- Whether a token separates others; the tree does not show it. -/
def separates (t : Token) : Bool := t.kind ∈ [.semicolon, .comma]

/-- Whether a token is an operator with a given text. -/
def isOperator (text : Text) (t : Token) : Bool := t.kind = .symbol && t.value = text

/-- Whether a token is a given name. -/
def isName (text : Text) (t : Token) : Bool := t.kind = .identifier && t.value = text

end Token

/-- The tokens that do not only separate others. -/
def kept (ts : List Token) : List Token := ts.filter fun t => !t.separates

/-- The first token with a given property that starts at a position or behind it. -/
def firstFrom (ts : List Token) (has : Token → Bool) (p : Position) : Option Token :=
  ts.find? fun t => has t && p.offset ≤ t.span.start.offset

/-- The tokens inside a span. -/
def inside (ts : List Token) (span : Span) : List Token :=
  ts.filter fun t =>
    span.start.offset ≤ t.span.start.offset && t.span.stop.offset ≤ span.stop.offset

/-- The kind of bracket around the children of a node. -/
def NodeKind.bracket? : NodeKind → Option Bracket
  | group => some .paren
  | product => some .brace
  | _ => none

namespace SyntaxTree
variable (ts : List Token)

/-- Where the inside of a bracket ends: with its last child, or with its opener. -/
def innerStop (b : Bracket) (start : Position) (children : List SyntaxTree) : Position :=
  (children.getLast?.map (·.span.stop)).getD
    (((firstFrom ts (·.kind = b.opener) start).map (·.span.stop)).getD start)

/-- Whether a bracket ends behind its inside. -/
def isClosed (b : Bracket) (span : Span) (children : List SyntaxTree) : Bool :=
  (innerStop ts b span.start children).offset < span.stop.offset

/-- A name and the mark behind it. -/
def named (mark : TokenKind) (text : Text) (start : Position) : List Token :=
  (firstFrom ts (Token.isName text) start).toList ++ (firstFrom ts (·.kind = mark) start).toList

/-- The tokens of a node in front of its children. -/
def leading (kind : NodeKind) (text : Text) (span : Span) : List Token :=
  match kind with
  | .program | .binary | .call => []
  | .number | .string | .boolean | .identifier => (ts.find? (·.span = span)).toList
  | .unary => (firstFrom ts (Token.isOperator text) span.start).toList
  | .lambda => named ts .arrow text span.start
  | .binding => named ts .bind text span.start
  | .field => named ts .colon text span.start
  | .group => (firstFrom ts (·.kind = .openParen) span.start).toList
  | .product => (firstFrom ts (·.kind = .openBrace) span.start).toList
  | .error => inside ts span

/-- The operator behind the left operand of a binary operation. -/
def between (kind : NodeKind) (text : Text) (left : SyntaxTree) : List Token :=
  match kind with
  | .binary => (firstFrom ts (Token.isOperator text) left.span.stop).toList
  | _ => []

/-- The closer of a bracket, if the bracket ends behind its inside. -/
def trailing (kind : NodeKind) (span : Span) (children : List SyntaxTree) : List Token :=
  match kind.bracket? with
  | some b =>
    if isClosed ts b span children then
      (ts.find? fun t => t.kind = b.closer && t.span.stop = span.stop).toList
    else []
  | none => []

mutual

/-- The tokens that a tree stands for, in the order of the tree. -/
def reading : SyntaxTree → List Token
  | node kind text span children =>
    leading ts kind text span ++ readings kind text children ++ trailing ts kind span children

/-- The tokens of the children of a node. -/
def readings (kind : NodeKind) (text : Text) : List SyntaxTree → List Token
  | [] => []
  | [last] => reading last
  | t :: u :: more =>
    reading t ++ between ts kind text t ++ readings kind text (u :: more)

end

end SyntaxTree

end LenSyntax

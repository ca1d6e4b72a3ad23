import LenSyntax.Token.Symbol

/-! Operator precedence. A binary operator with a higher precedence binds tighter; operators of one
precedence associate alike. -/
namespace LenSyntax

structure BinaryOperator where
  precedence : Nat
  rightAssociative : Bool
  deriving DecidableEq, Repr

/-- The least precedence that an operator in the right operand may have. -/
def BinaryOperator.rightLeast (op : BinaryOperator) : Nat :=
  if op.rightAssociative then op.precedence else op.precedence + 1

def binaryOperators : List (Text × BinaryOperator) :=
  [("$", ⟨1, true⟩),
    ("||", ⟨2, false⟩),
    ("&&", ⟨3, false⟩),
    ("==", ⟨4, false⟩), ("!=", ⟨4, false⟩),
    ("<", ⟨5, false⟩), ("<=", ⟨5, false⟩), (">", ⟨5, false⟩), (">=", ⟨5, false⟩),
    ("+", ⟨6, false⟩), ("-", ⟨6, false⟩), ("++", ⟨6, false⟩),
    ("*", ⟨7, false⟩), ("/", ⟨7, false⟩), ("%", ⟨7, false⟩),
    ("^", ⟨8, true⟩)]

def unaryOperators : List Text := ["-", "!"]

/-- No operator binds more loosely, so an expression that starts from here may use them all. -/
def lowestPrecedence : Nat := 1

namespace Token

/-- The operator that a token stands for between two operands. -/
def binaryOperator? (t : Token) : Option BinaryOperator :=
  if t.kind = .symbol then binaryOperators.lookup t.value else none

/-- Whether a token is an operator in front of an operand. -/
def isUnaryOperator (t : Token) : Bool := t.kind = .symbol && t.value ∈ unaryOperators

end Token
end LenSyntax

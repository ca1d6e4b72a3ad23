import LenSyntax.Position

/-! Tokens: what a source is made of once blanks are gone. -/
namespace LenSyntax

inductive TokenKind where
  | identifier
  | keyword
  | number
  | string
  | symbol
  | openParen
  | closeParen
  | openBrace
  | closeBrace
  | colon
  | comma
  | semicolon
  | bind
  | arrow
  | comment
  | error
  | endOfInput
  deriving DecidableEq, Repr

namespace TokenKind

def all : List TokenKind :=
  [identifier, keyword, number, string, symbol, openParen, closeParen, openBrace, closeBrace, colon,
    comma, semicolon, bind, arrow, comment, error, endOfInput]

/-- The name of a kind in a token dump. -/
def name : TokenKind → Text
  | identifier => "IDENTIFIER"
  | keyword => "KEYWORD"
  | number => "NUMBER"
  | string => "STRING"
  | symbol => "SYMBOL"
  | openParen => "LPAREN"
  | closeParen => "RPAREN"
  | openBrace => "LBRACE"
  | closeBrace => "RBRACE"
  | colon => "COLON"
  | comma => "COMMA"
  | semicolon => "SEMICOLON"
  | bind => "BIND"
  | arrow => "ARROW"
  | comment => "COMMENT"
  | error => "ERROR"
  | endOfInput => "EOF"

def ofName? (name : Text) : Option TokenKind := all.find? (·.name = name)

theorem mem_all (k : TokenKind) : k ∈ all := by cases k <;> decide

end TokenKind

/-- `raw` is the text of the source and `value` what it stands for: the content of a string without
its escapes, an integer without leading zeros, and otherwise `raw` itself. -/
@[ext] structure Token where
  kind : TokenKind
  value : Text
  raw : Text
  span : Span
  deriving DecidableEq

namespace Token

/-- The token that ends a source at a position. -/
def endAt (p : Position) : Token := ⟨.endOfInput, [], [], .point p⟩

end Token
end LenSyntax

import LenSyntax.Text.Quoted

/-! What can be wrong with a lexeme or with an escape inside a string literal. -/
namespace LenSyntax

inductive EscapeFault where
  | unknown (c : CodePoint)
  | incomplete (wanted found : Nat)
  | outOfRange (digits : Text)
  deriving DecidableEq

def EscapeFault.message : EscapeFault → Text
  | unknown c => "invalid escape sequence '\\" ++ [c] ++ "'"
  | incomplete wanted found =>
    "incomplete escape: expected " ++ Text.ofNat wanted ++ " hex digits, got " ++ Text.ofNat found
  | outOfRange digits => "Unicode codepoint U+" ++ digits ++ " is out of range"

inductive LexicalFault where
  | unexpected (run : Text)
  | openComment
  | openString
  | missingFraction
  | missingExponent
  | invalidNumber (raw : Text)
  deriving DecidableEq

def LexicalFault.message : LexicalFault → Text
  | unexpected run =>
    (if run.length = 1 then "unexpected character " else "unexpected characters ") ++ run.quoted
  | openComment => "unterminated block comment"
  | openString => "unterminated string literal"
  | missingFraction => "expected digits after decimal point"
  | missingExponent => "expected digits in exponent"
  | invalidNumber raw => "invalid numeric literal " ++ raw.quoted

end LenSyntax

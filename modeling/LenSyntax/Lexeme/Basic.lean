import LenSyntax.Diagnostic.Basic
import LenSyntax.Lexeme.Literal
import LenSyntax.Lexeme.Number

/-! Lexemes: the pieces into which every text falls. -/
namespace LenSyntax

inductive Lexeme where
  | blank (raw : Text)
  | comment (raw : Text)
  | word (raw : Text)
  | symbol (kind : TokenKind) (raw : Text)
  | number (raw : Text)
  | string (body : List Piece)
  | malformed (fault : LexicalFault) (raw : Text)
  deriving DecidableEq

namespace Lexeme

/-- The source text of a lexeme. -/
def raw : Lexeme → Text
  | blank raw => raw
  | comment raw => raw
  | word raw => raw
  | symbol _ raw => raw
  | number raw => raw
  | string body => CodePoint.ofChar '"' :: (body.flatMap Piece.raw ++ "\"")
  | malformed _ raw => raw

/-- The token that a lexeme makes between two positions, if it makes one. -/
def token? (keepComments : Bool) (span : Span) : Lexeme → Option Token
  | blank _ => none
  | comment raw => if keepComments then some ⟨.comment, raw, raw, span⟩ else none
  | word raw => some ⟨if raw ∈ keywords then .keyword else .identifier, raw, raw, span⟩
  | symbol kind raw => some ⟨kind, raw, raw, span⟩
  | number raw => some ⟨.number, Number.canonical raw, raw, span⟩
  | string body => some ⟨.string, body.flatMap Piece.value, (string body).raw, span⟩
  | malformed _ raw => some ⟨.error, raw, raw, span⟩

/-- One diagnostic for each bad escape, over that escape; the body starts at `p`. -/
def bodyDiagnostics (p : Position) : List Piece → List Diagnostic
  | [] => []
  | piece :: body =>
    match piece.fault? with
    | none => bodyDiagnostics (p.after piece.raw) body
    | some fault =>
      .error fault.message ⟨p, p.after piece.raw⟩ :: bodyDiagnostics (p.after piece.raw) body

/-- What is wrong with a lexeme that starts at `p`. -/
def diagnostics (p : Position) : Lexeme → List Diagnostic
  | string body => bodyDiagnostics (p.advance '"') body
  | malformed fault raw => [.error fault.message ⟨p, p.after raw⟩]
  | _ => []

end Lexeme
end LenSyntax

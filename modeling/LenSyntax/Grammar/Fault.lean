import LenSyntax.Text.Quoted
import LenSyntax.Token.Basic

/-! What can be wrong with the syntax of a source. -/
namespace LenSyntax

/-- What stands where something else was expected. -/
inductive Found where
  | endOfInput
  | token (raw : Text)
  deriving DecidableEq

namespace Found

/-- The token at the head of the remaining ones. -/
def ofHead : List Token → Found
  | [] => endOfInput
  | t :: _ => token t.raw

def text : Found → Text
  | endOfInput => "end of input"
  | token raw => raw.quoted

end Found

/-- `missing…` are faults where nothing can be skipped, the others tell what was found instead. -/
inductive SyntaxFault where
  | missingExpression
  | missingFieldName
  | unexpected (found : Found)
  | afterStatement (found : Found)
  | afterField (found : Found)
  | notFieldName (found : Found)
  | openGroup (opening : Position)
  | openProduct (opening : Position)
  | tooDeep (limit : Nat)
  | invalidToken (raw : Text)
  | duplicateField (name : Text)
  deriving DecidableEq

def SyntaxFault.message : SyntaxFault → Text
  | missingExpression => "expected expression"
  | missingFieldName => "expected field name"
  | unexpected found => "unexpected " ++ found.text
  | afterStatement found => "expected ';' after statement, found " ++ found.text
  | afterField found => "expected ',' or '\x7d' after field, found " ++ found.text
  | notFieldName found => "expected field name, found " ++ found.text
  | openGroup opening => "expected ')' to close '(' at " ++ opening.label
  | openProduct opening => "expected '\x7d' to close '\x7b' at " ++ opening.label
  | tooDeep limit => "expression nested too deeply (limit " ++ Text.ofNat limit ++ ")"
  | invalidToken raw => "invalid token " ++ raw.quoted
  | duplicateField name => "duplicate field " ++ name.quoted

end LenSyntax

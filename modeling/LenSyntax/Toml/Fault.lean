import LenSyntax.Position
import LenSyntax.Text.Quoted
import LenSyntax.Toml.Value

/-! What can be wrong with a TOML document, and where. -/
namespace LenSyntax.Toml

inductive Fault where
  | statement
  | afterStatement
  | missing (closer : Text)
  | invalidCharacter (c : CodePoint)
  | declaredTwice (key : Key)
  | overwritten
  | openTableHeader
  | openArrayHeader
  | immutable (key : Key)
  | redefined (key : Key)
  | missingEquals
  | keyPart
  | openArray
  | duplicateKey (name : Text)
  | openInlineTable
  | backslash
  | hexadecimal
  | notScalarValue
  | openString
  | illegalCharacter (c : CodePoint)
  | date
  | value
  | tooManyDigits (count : Nat)
  deriving DecidableEq

/-- The names of a key in quotes and in parentheses; a comma follows a single one. -/
def Key.text : Key → Text
  | [name] => "(" ++ name.quoted ++ ",)"
  | key => "(" ++ Text.joinWith ", " (key.map Text.quoted) ++ ")"

def Fault.message : Fault → Text
  | statement => "Invalid statement"
  | afterStatement => "Expected newline or end of document after a statement"
  | missing closer => "Expected " ++ closer.quoted
  | invalidCharacter c => "Found invalid character " ++ Text.quoted [c]
  | declaredTwice key => "Cannot declare " ++ key.text ++ " twice"
  | overwritten => "Cannot overwrite a value"
  | openTableHeader => "Expected ']' at the end of a table declaration"
  | openArrayHeader => "Expected ']]' at the end of an array declaration"
  | immutable key => "Cannot mutate immutable namespace " ++ key.text
  | redefined key => "Cannot redefine namespace " ++ key.text
  | missingEquals => "Expected '=' after a key in a key/value pair"
  | keyPart => "Invalid initial character for a key part"
  | openArray => "Unclosed array"
  | duplicateKey name => "Duplicate inline table key " ++ name.quoted
  | openInlineTable => "Unclosed inline table"
  | backslash => "Unescaped '\\' in a string"
  | hexadecimal => "Invalid hex value"
  | notScalarValue => "Escaped character is not a Unicode scalar value"
  | openString => "Unterminated string"
  | illegalCharacter c => "Illegal character " ++ Text.quoted [c]
  | date => "Invalid date or datetime"
  | value => "Invalid value"
  | tooManyDigits count => "Too many digits: " ++ Text.ofNat count

/-- A fault and the text behind the place where it shows. -/
structure Failure where
  fault : Fault
  rest : Text
  deriving DecidableEq

/-- The message of a failure in a document, with the place where it shows. -/
def Failure.message (document : Text) (f : Failure) : Text :=
  let p := Position.origin.after (document.take (document.length - f.rest.length))
  let place : Text :=
    if f.rest = [] then "end of document"
    else "line " ++ Text.ofInt p.line ++ ", column " ++ Text.ofInt p.column
  f.fault.message ++ " (at " ++ place ++ ")"

def fail (fault : Fault) (rest : Text) : Except Failure α := .error ⟨fault, rest⟩

end LenSyntax.Toml

import LenSyntax.Text.Utf16

/-! JSON documents in ASCII, with an item on each line and two spaces for each level. -/
namespace LenSyntax

inductive Json where
  | number (n : Int)
  | string (t : Text)
  | array (items : List Json)
  | object (entries : List (Text × Json))

namespace Json

/-- A code point in a string: what is not printable ASCII is written in UTF-16 units. -/
def escape (c : CodePoint) : Text :=
  if c = '"' then "\\\""
  else if c = '\\' then "\\\\"
  else if c = '\n' then "\\n"
  else if c = '\r' then "\\r"
  else if c = '\t' then "\\t"
  else if c = '\x08' then "\\b"
  else if c = '\x0c' then "\\f"
  else if 0x20 ≤ c.val ∧ c.val ≤ 0x7E then [c]
  else c.units16.flatMap fun unit => "\\u" ++ Text.hex 4 unit

def quote (t : Text) : Text := "\"" ++ t.flatMap escape ++ "\""

/-- Starts a line at a level. -/
def newline (level : Nat) : Text := "\n" ++ Text.spaces (2 * level)

/-- Items on lines of their own between brackets; without items the brackets touch. -/
def enclose (level : Nat) (opening closing : Text) (items : List Text) : Text :=
  if items = [] then opening ++ closing
  else
    opening ++ newline (level + 1) ++ Text.joinWith ("," ++ newline (level + 1)) items ++
      newline level ++ closing

mutual

/-- The text of a document whose first line starts at a level. -/
def render (level : Nat) : Json → Text
  | number n => Text.ofInt n
  | string t => quote t
  | array items => enclose level "[" "]" (renderItems (level + 1) items)
  | object entries => enclose level "\x7b" "\x7d" (renderEntries (level + 1) entries)

def renderItems (level : Nat) : List Json → List Text
  | [] => []
  | item :: items => render level item :: renderItems level items

def renderEntries (level : Nat) : List (Text × Json) → List Text
  | [] => []
  | (name, value) :: entries =>
    (quote name ++ ": " ++ render level value) :: renderEntries level entries

end

/-- The text of a document. -/
def text (j : Json) : Text := j.render 0

end Json
end LenSyntax

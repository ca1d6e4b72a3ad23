import LenSyntax.Text.Basic

/-! Paths: names with slashes between them. Empty names and single dots are dropped when a path is
read; double dots stay. -/
namespace LenSyntax

/-- `root` is empty for a relative path. Two slashes in front are a root of their own. -/
structure Path where
  root : Text
  names : List Text
  deriving DecidableEq

/-- Why nothing can be looked for at a path: some code point of it has no bytes, or one is null. -/
inductive PathFault where
  | unencodable
  | null
  deriving DecidableEq, Repr

/-- Whether a code point can be part of a name. Of the surrogates only those can that stand for
single bytes in names that are not UTF-8. -/
def CodePoint.isNameable (c : CodePoint) : Bool :=
  !c.isSurrogate || (0xDC80 ≤ c.val && c.val ≤ 0xDCFF)

namespace Path

/-- The pieces between slashes. -/
def split (t : Text) : List Text :=
  t.foldr (fun (c : CodePoint) (pieces : List Text) =>
    match pieces with
    | [] => if c = '/' then [[], []] else [[c]]
    | piece :: others => if c = '/' then [] :: piece :: others else (c :: piece) :: others) [[]]

def ofText (t : Text) : Path where
  root :=
    match (t.takeWhile (· = CodePoint.ofChar '/')).length with
    | 0 => []
    | 2 => "//"
    | _ => "/"
  names := (split t).filter fun name => name ≠ [] && name ≠ "."

/-- The text of a path; an empty one is a dot. -/
def text (p : Path) : Text :=
  if p.root = [] ∧ p.names = [] then "." else p.root ++ Text.joinWith "/" p.names

/-- What is wrong with a path that no file can have. It is encoded before anything else. -/
def fault? (p : Path) : Option PathFault :=
  if p.text.any (!·.isNameable) then some .unencodable
  else if CodePoint.ofNat 0 ∈ p.text then some .null
  else none

/-- A path without its last name. -/
def parent (p : Path) : Path := ⟨p.root, p.names.dropLast⟩

/-- The path of a name below a path. -/
def child (p : Path) (name : Text) : Path := ⟨p.root, p.names ++ [name]⟩

end Path
end LenSyntax

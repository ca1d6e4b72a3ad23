import LenSyntax.Text.Basic

/-! Values of TOML documents. Strings, floats, dates and times are told apart from the other values
and not from each other, for no setting is one of them. -/
namespace LenSyntax.Toml

/-- `tables` is an array of tables that headers have made: the last table, to which lines may add,
and those in front of it, latest first. -/
inductive Value where
  | boolean (b : Bool)
  | integer (n : Int)
  | scalar
  | array (items : List Value)
  | table (entries : List (Text × Value))
  | tables (earlier : List (List (Text × Value))) (last : List (Text × Value))

instance : Inhabited Value := ⟨.scalar⟩

/-- Entries in the order in which they appeared, no two of which have the same name. -/
abbrev Table := List (Text × Value)

/-- The names that lead from a table to a value. -/
abbrev Key := List Text

namespace Value

/-- Booleans, integers and other scalars hold nothing that a later line could add to. -/
def isContainer : Value → Bool
  | array _ | table _ | tables _ _ => true
  | boolean _ | integer _ | scalar => false

end Value

namespace Table

def get? (t : Table) (name : Text) : Option Value := t.lookup name

/-- Puts a value in place of the one of that name, or behind all others. -/
def set (t : Table) (name : Text) (v : Value) : Table :=
  match t with
  | [] => [(name, v)]
  | (other, w) :: rest =>
    if other = name then (name, v) :: rest else (other, w) :: set rest name v

/-- Changes the table that a key leads to, and makes the tables on the way that are not there. Of an
array of tables the last one is on the way; any other value blocks it. -/
def modify? (change : Table → Option Table) : Key → Table → Option Table
  | [], t => change t
  | name :: key, t =>
    match get? t name with
    | none => (modify? change key []).map fun u => set t name (.table u)
    | some (.table u) => (modify? change key u).map fun u => set t name (.table u)
    | some (.tables earlier u) =>
      (modify? change key u).map fun u => set t name (.tables earlier u)
    | some _ => none

/-- Adds an entry under a new name. -/
def insert? (name : Text) (v : Value) (t : Table) : Option Table :=
  match get? t name with
  | some _ => none
  | none => some (t ++ [(name, v)])

/-- Adds an empty table to the array of a name, or a first one to a new array. -/
def appendTable? (name : Text) (t : Table) : Option Table :=
  match get? t name with
  | none => some (t ++ [(name, .tables [] [])])
  | some (.tables earlier last) => some (set t name (.tables (last :: earlier) []))
  | some _ => none

end Table
end LenSyntax.Toml

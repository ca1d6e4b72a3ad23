import LenSyntax.Toml.Entry

/-! TOML documents: entries and headers, each on a line of its own. `room` bounds the rounds of
every loop; each takes a code point, so the length of the document is enough. -/
namespace LenSyntax.Toml

/-- What the lines read so far have made. `closed` holds the keys of values to which nothing may be
added, `declared` the keys of tables that no header may name again, and `pending` those that join
them at the next header; entries go to the table of the key `header`. -/
structure Draft where
  table : Table
  closed : List Key
  declared : List Key
  pending : List Key
  header : Key

namespace Draft

def empty : Draft := ⟨[], [], [], [], []⟩

/-- The keys of the tables between a header and a name. -/
def between (header key : Key) : List Key :=
  (List.range (key.length - 1)).map fun n => header ++ key.take (n + 1)

/-- A line with an entry. -/
def entryLine (d : Draft) (room : Nat) (t : Text) : Except Failure (Draft × Text) := do
  let ((names, v), t) ← entry (value room room) room t
  match (between d.header names).find? (· ∈ d.declared) with
  | some key => fail (.redefined key) t
  | none =>
    let parent := d.header ++ names.dropLast
    if isBelow d.closed parent then fail (.immutable parent) t
    else
      match Table.modify? (Table.insert? (names.getLastD []) v) parent d.table with
      | none => fail .overwritten t
      | some table =>
        .ok ({ d with
          table
          closed := if v.isContainer then (d.header ++ names) :: d.closed else d.closed
          pending := between d.header names ++ d.pending }, t)

/-- A line with the header of a table, behind its bracket. -/
def tableLine (d : Draft) (room : Nat) (t : Text) : Except Failure (Draft × Text) := do
  let (names, t) ← key room (skipSpace t)
  let declared := d.pending ++ d.declared
  if names ∈ declared ∨ isBelow d.closed names then fail (.declaredTwice names) t
  else
    match Table.modify? some names d.table with
    | none => fail .overwritten t
    | some table =>
      if startsWith "]" t then
        .ok (⟨table, d.closed, names :: declared, [], names⟩, t.drop 1)
      else fail .openTableHeader t

/-- A line with the header of an item of an array of tables, behind its brackets. What was declared
below the item before it may be declared again. -/
def itemLine (d : Draft) (room : Nat) (t : Text) : Except Failure (Draft × Text) := do
  let (names, t) ← key room (skipSpace t)
  let declared := d.pending ++ d.declared
  if isBelow d.closed names then fail (.immutable names) t
  else
    match Table.modify? (Table.appendTable? (names.getLastD [])) names.dropLast d.table with
    | none => fail .overwritten t
    | some table =>
      if startsWith "]]" t then
        let apart (key : Key) : Bool := !names.isPrefixOf key
        .ok (⟨table, d.closed.filter apart, names :: declared.filter apart, [], names⟩, t.drop 2)
      else fail .openArrayHeader t

/-- What stands on a line in front of a comment. -/
def line (d : Draft) (room : Nat) (t : Text) : Except Failure (Draft × Text) :=
  match t with
  | [] => .ok (d, [])
  | c :: u =>
    if startsKey c then d.entryLine room t
    else if startsWith "[[" t then d.itemLine room (u.drop 1)
    else if c = '[' then d.tableLine room u
    else if c = '#' ∨ c = '\n' then .ok (d, t)
    else fail .statement t

/-- All lines from here on. -/
def lines : (room : Nat) → Draft → Text → Except Failure Draft
  | 0, d, _ => .ok d
  | room + 1, d, t => do
    let (d, t) ← d.line (room + 1) (skipSpace t)
    match ← skipComment (skipSpace t) with
    | [] => .ok d
    | c :: u => if c = '\n' then lines room d u else fail .afterStatement (c :: u)

end Draft

/-- A text in which carriage return and line feed have become a line feed. -/
def unixLines : Text → Text
  | [] => []
  | c :: t =>
    if c = '\r' ∧ t.head? = some (CodePoint.ofChar '\n') then unixLines t else c :: unixLines t

/-- Reads a document, the line ends of which are line feeds. -/
def document (t : Text) : Except Failure Table :=
  (Draft.lines (t.length + 1) .empty t).map (·.table)

/-- The most frames at once that open arrays and inline tables take, two and three each. -/
def framesOf (t : Text) : Nat :=
  (t.foldl (fun (now, most) c =>
    let now :=
      if c = '[' then now + 2 else if c = '\x7b' then now + 3
      else if c = ']' then now - 2 else if c = '\x7d' then now - 3 else now
    (now, max now most)) (0, 0)).2

/-- How much nesting a reader of documents has room for. That is up to what it runs on; all that is
asked is of which documents the reading breaks off for want of room, and that is none of those in
which nothing is nested. -/
structure Capacity where
  isExceeded : Text → Bool
  isExceeded_of_flat : ∀ t, framesOf t = 0 → isExceeded t = false

/-- Room for so many frames. -/
def Capacity.ofFrames (frames : Nat) : Capacity where
  isExceeded t := frames < framesOf t
  isExceeded_of_flat t h := by simp [h]

end LenSyntax.Toml

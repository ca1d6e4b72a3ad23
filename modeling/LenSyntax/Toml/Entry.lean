import LenSyntax.Toml.Number

/-! Values and entries of TOML documents. What reads the values inside an array or an inline table
is an argument; each level of nesting takes a code point, so there are levels enough if there are as
many as code points. -/
namespace LenSyntax.Toml

/-- Spaces, line feeds and comments between the items of an array. -/
def skipBetween (inComment : Bool) : Text → Except Failure Text
  | [] => .ok []
  | c :: t =>
    if inComment && c ≠ '\n' then
      if isControl c then fail (.invalidCharacter c) (c :: t) else skipBetween true t
    else if isSpaceOrNewline c then skipBetween false t
    else if c = '#' then skipBetween true t
    else .ok (c :: t)

/-- Keys below which nothing may be added any more. -/
def isBelow (closed : List Key) (key : Key) : Bool := closed.any (·.isPrefixOf key)

/-- A string behind its first quote: of many lines if it starts with three. -/
def string (room : Nat) (quote : CodePoint) (t : Text) : Except Failure (Text × Text) :=
  if startsWith [quote, quote, quote] (quote :: t) then manyLines room quote (t.drop 2)
  else oneLine room quote t

/-- What reads a value from the start of a text, and what is left behind it. -/
abbrev ValueReader := Text → Except Failure (Value × Text)

/-- The items of an array behind those that `before` holds backwards. -/
def items (inner : ValueReader) : (room : Nat) → (before : List Value) → ValueReader
  | 0, _, t => fail .openArray t
  | room + 1, before, t => do
    let (item, t) ← inner t
    let t ← skipBetween false t
    if startsWith "]" t then .ok (.array (item :: before).reverse, t.drop 1)
    else if startsWith "," t then
      let t ← skipBetween false (t.drop 1)
      if startsWith "]" t then .ok (.array (item :: before).reverse, t.drop 1)
      else items inner room (item :: before) t
    else fail .openArray t

/-- An array, behind its bracket. -/
def array (inner : ValueReader) (room : Nat) (t : Text) : Except Failure (Value × Text) := do
  let t ← skipBetween false t
  if startsWith "]" t then .ok (.array [], t.drop 1) else items inner room [] t

/-- A key, an equals sign and a value. -/
def entry (inner : ValueReader) (room : Nat) (t : Text) :
    Except Failure ((Key × Value) × Text) := do
  let (names, t) ← key room t
  if startsWith "=" t then
    let (v, t) ← inner (skipSpace (t.drop 1))
    .ok ((names, v), t)
  else fail .missingEquals t

/-- The entries of an inline table behind those of `before`; containers among these are closed. -/
def entries (inner : ValueReader) :
    (room : Nat) → (closed : List Key) → (before : Table) → ValueReader
  | 0, _, _, t => fail .openInlineTable t
  | room + 1, closed, before, t => do
    let ((names, v), t) ← entry inner (room + 1) t
    if isBelow closed names then fail (.immutable names) t
    else
      match Table.modify? some names.dropLast before with
      | none => fail .overwritten t
      | some _ =>
        match Table.modify? (Table.insert? (names.getLastD []) v) names.dropLast before with
        | none => fail (.duplicateKey (names.getLastD [])) t
        | some after =>
          let t := skipSpace t
          if startsWith "\x7d" t then .ok (.table after, t.drop 1)
          else if startsWith "," t then
            entries inner room (if v.isContainer then names :: closed else closed) after
              (skipSpace (t.drop 1))
          else fail .openInlineTable t

/-- An inline table, behind its brace. -/
def inlineTable (inner : ValueReader) (room : Nat) (t : Text) : Except Failure (Value × Text) :=
  let t := skipSpace t
  if startsWith "\x7d" t then .ok (.table [], t.drop 1) else entries inner room [] [] t

/-- A value that is nested no deeper than in so many levels. -/
def value (room : Nat) : (levels : Nat) → ValueReader
  | 0, t => fail .value t
  | _ + 1, [] => fail .value []
  | levels + 1, c :: u =>
    let t := c :: u
    if c = '"' ∨ c = '\'' then (string room c u).map fun s => (.scalar, s.2)
    else if startsWith "true" t then .ok (.boolean true, t.drop 4)
    else if startsWith "false" t then .ok (.boolean false, t.drop 5)
    else if c = '[' then array (value room levels) room u
    else if c = '\x7b' then inlineTable (value room levels) room u
    else numeric t

end LenSyntax.Toml

import LenSyntax.Toml.Fault

/-! Strings and keys of TOML documents. `room` bounds the rounds of a loop; each takes a code point,
so the length of the document is enough. -/
namespace LenSyntax.Toml

/-- Spaces and tabs. -/
def isSpace (c : CodePoint) : Bool := c = ' ' || c = '\t'

def isSpaceOrNewline (c : CodePoint) : Bool := isSpace c || c = '\n'

def skipSpace (t : Text) : Text := t.dropWhile isSpace

/-- Control characters, of which a tab is none. -/
def isControl (c : CodePoint) : Bool := (c.val < 0x20 && c ≠ '\t') || c.val = 0x7F

/-- Control characters that may not stand in a string; one of several lines may hold line feeds. -/
def isIllegal (multiline : Bool) (c : CodePoint) : Bool :=
  isControl c && !(multiline && c = '\n')

def startsWith (start t : Text) : Bool := start.isPrefixOf t

/-- Cuts in front of `closer`, or at the end if it need not be there; no code point in front of it
may be a bad one. -/
def upTo (closer : Text) (required : Bool) (bad : CodePoint → Bool) (t : Text) :
    Except Failure (Text × Text) :=
  let s := t.splitBefore (startsWith closer)
  if required && s.2.isEmpty then fail (.missing closer) []
  else
    match s.1.dropWhile (!bad ·) with
    | [] => .ok s
    | c :: others => fail (.invalidCharacter c) (t.drop (s.1.length - (others.length + 1)))

/-- A comment, if one starts here. -/
def skipComment (t : Text) : Except Failure Text :=
  match t with
  | [] => .ok []
  | c :: u =>
    if c = '#' then (upTo "\n" false isControl u).map (·.2)
    else .ok t

/-- The letters with a meaning of their own behind a backslash. -/
def escapes : List (CodePoint × CodePoint) :=
  [('b', '\x08'), ('t', '\t'), ('n', '\n'), ('f', '\x0c'), ('r', '\r'), ('"', '"'), ('\\', '\\')]

def isHexDigit (c : CodePoint) : Bool := c.hexValue?.isSome

/-- The code point with a number of `width` hexadecimal digits. -/
def hexEscape (width : Nat) (t : Text) : Except Failure (Text × Text) :=
  let digits := t.take width
  if digits.length ≠ width ∨ !digits.all isHexDigit then fail .hexadecimal t
  else
    let n := Text.hexNumber digits
    if n < 0xD800 ∨ (0xDFFF < n ∧ n < 0x110000) then .ok ([.ofNat n], t.drop width)
    else fail .notScalarValue (t.drop width)

/-- Where a line ends with a backslash, it goes on at the next code point that is not blank. -/
def lineEnd (t : Text) : Except Failure (Text × Text) :=
  match skipSpace t with
  | [] => .ok ([], [])
  | c :: u =>
    if c = '\n' then .ok ([], u.dropWhile isSpaceOrNewline) else fail .backslash (c :: u)

/-- The escape behind a backslash. -/
def escape (multiline : Bool) (t : Text) : Except Failure (Text × Text) :=
  match t with
  | [] => fail .backslash []
  | c :: u =>
    if multiline && isSpaceOrNewline c then lineEnd t
    else if c = 'u' then hexEscape 4 u
    else if c = 'U' then hexEscape 8 u
    else
      match escapes.lookup c with
      | some meaning => .ok ([meaning], u)
      | none => fail .backslash u

/-- The rest of a string in double quotes; `read` holds its start, backwards. -/
def basicString (multiline : Bool) :
    (room : Nat) → (read : Text) → Text → Except Failure (Text × Text)
  | 0, _, t => fail .openString t
  | _, _, [] => fail .openString []
  | room + 1, read, c :: t =>
    if c = '"' then
      if !multiline then .ok (read.reverse, t)
      else if startsWith "\"\"\"" (c :: t) then .ok (read.reverse, t.drop 2)
      else basicString multiline room (c :: read) t
    else if c = '\\' then do
      let (meaning, t) ← escape multiline t
      basicString multiline room (meaning ++ read) t
    else if isIllegal multiline c then fail (.illegalCharacter c) (c :: t)
    else basicString multiline room (c :: read) t

/-- A string on one line, behind its opening quote. -/
def oneLine (room : Nat) (quote : CodePoint) (t : Text) : Except Failure (Text × Text) :=
  if quote = '"' then basicString false room [] t
  else do
    let (content, t) ← upTo [quote] true (isIllegal false) t
    .ok (content, t.drop 1)

/-- At most two more quotes belong to a string of several lines. -/
def extraQuotes (quote : CodePoint) (content t : Text) : Text × Text :=
  let quotes := (t.take 2).takeWhile (· = quote)
  (content ++ quotes, t.drop quotes.length)

/-- A string of several lines, behind its opening quotes. -/
def manyLines (room : Nat) (quote : CodePoint) (t : Text) : Except Failure (Text × Text) := do
  let t := if startsWith "\n" t then t.drop 1 else t
  if quote = '"' then
    let (content, t) ← basicString true room [] t
    .ok (extraQuotes quote content t)
  else
    let (content, t) ← upTo [quote, quote, quote] true (isIllegal true) t
    .ok (extraQuotes quote content (t.drop 3))

/-- The code points of names without quotes. -/
def isBare (c : CodePoint) : Bool :=
  (0x61 ≤ c.val && c.val ≤ 0x7A) || (0x41 ≤ c.val && c.val ≤ 0x5A) ||
    (0x30 ≤ c.val && c.val ≤ 0x39) || c = '-' || c = '_'

def startsKey (c : CodePoint) : Bool := isBare c || c = '"' || c = '\''

/-- One name of a key. -/
def keyPart (room : Nat) (t : Text) : Except Failure (Text × Text) :=
  match t with
  | [] => fail .keyPart []
  | c :: u =>
    if isBare c then .ok (t.takeWhile isBare, t.dropWhile isBare)
    else if c = '"' ∨ c = '\'' then oneLine room c u
    else fail .keyPart t

/-- The names of a key behind its first ones, which `names` holds backwards. -/
def keyAfter : (room : Nat) → (names : Key) → Text → Except Failure (Key × Text)
  | 0, names, t => .ok (names.reverse, t)
  | room + 1, names, t =>
    match skipSpace t with
    | [] => .ok (names.reverse, [])
    | c :: u =>
      if c = '.' then do
        let (name, u) ← keyPart (room + 1) (skipSpace u)
        keyAfter room (name :: names) u
      else .ok (names.reverse, c :: u)

/-- A key and the space behind it. -/
def key (room : Nat) (t : Text) : Except Failure (Key × Text) := do
  let (name, t) ← keyPart room t
  keyAfter room [name] t

end LenSyntax.Toml

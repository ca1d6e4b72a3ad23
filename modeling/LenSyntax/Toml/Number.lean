import LenSyntax.Toml.Key

/-! Numbers, dates and times of TOML documents. -/
namespace LenSyntax.Toml

def isDecimal (c : CodePoint) : Bool := 0x30 ≤ c.val && c.val ≤ 0x39

/-- Digits behind those that `read` holds backwards, each with at most one underscore in front. -/
def moreDigits (digit : CodePoint → Bool) (read : Text) : Text → Text × Text
  | [] => (read.reverse, [])
  | c :: t =>
    if digit c then moreDigits digit (c :: read) t
    else if c = '_' then
      match t with
      | [] => (read.reverse, [c])
      | d :: u =>
        if digit d then moreDigits digit (d :: read) u else (read.reverse, c :: d :: u)
    else (read.reverse, c :: t)

/-- At least one digit, without the underscores between them. -/
def digits? (digit : CodePoint → Bool) (t : Text) : Option (Text × Text) :=
  match t with
  | [] => none
  | c :: u => if digit c then some (moreDigits digit [c] u) else none

/-- The number that digits spell in a base. -/
def number (base : Nat) (digits : Text) : Int :=
  (digits.foldl (fun n c => base * n + c.hexValue?.getD 0) 0 : Nat)

/-- The base for a letter behind a zero, and its digits. -/
def base? (c : CodePoint) : Option (Nat × (CodePoint → Bool)) :=
  if c = 'x' then some (16, isHexDigit)
  else if c = 'o' then some (8, fun c => 0x30 ≤ c.val && c.val ≤ 0x37)
  else if c = 'b' then some (2, fun c => 0x30 ≤ c.val && c.val ≤ 0x31)
  else none

/-- An integer in a base that its start tells. -/
def basedInteger? (t : Text) : Option (Int × Text) :=
  match t with
  | zero :: letter :: u =>
    if zero = CodePoint.ofChar '0' then do
      let (base, digit) ← base? letter
      let (digits, u) ← digits? digit u
      some (number base digits, u)
    else none
  | _ => none

/-- A sign, if one starts here, and whether it is a minus. -/
def sign (t : Text) : Bool × Text :=
  match t with
  | [] => (false, t)
  | c :: u => if c = '-' then (true, u) else if c = '+' then (false, u) else (false, t)

/-- The digits in front of a decimal point: a zero stands alone. -/
def whole? (t : Text) : Option (Text × Text) :=
  match t with
  | [] => none
  | c :: u => if c = '0' then some ([c], u) else digits? isDecimal t

/-- What is behind a fraction, if one starts here. -/
def fraction? (t : Text) : Option Text :=
  match t with
  | [] => none
  | c :: u => if c = '.' then (digits? isDecimal u).map (·.2) else none

/-- What is behind an exponent, if one starts here. -/
def exponent? (t : Text) : Option Text :=
  match t with
  | [] => none
  | c :: u => if c = 'e' ∨ c = 'E' then (digits? isDecimal (sign u).2).map (·.2) else none

/-- Decimal integers with more digits than this are not read. -/
def longestInteger : Nat := 4300

/-- A number in base ten; with a fraction or an exponent it is no integer. -/
def decimalNumber? (t : Text) : Option (Except Failure (Value × Text)) := do
  let (negative, u) := sign t
  let (digits, u) ← whole? u
  let fraction := fraction? u
  match fraction.isSome, exponent? (fraction.getD u) with
  | _, some v => some (.ok (.scalar, v))
  | true, none => some (.ok (.scalar, fraction.getD u))
  | false, none =>
    if longestInteger < digits.length then some (fail (.tooManyDigits digits.length) u)
    else
      let n := number 10 digits
      some (.ok (.integer (if negative then -n else n), u))

/-- Infinities and what is not a number. -/
def specialFloat? (t : Text) : Option Text :=
  let u := (sign t).2
  if startsWith "inf" u ∨ startsWith "nan" u then some (u.drop 3) else none

/-- A number of two digits between bounds. -/
def twoDigits? (low high : Nat) (t : Text) : Option (Nat × Text) :=
  match t with
  | a :: b :: u =>
    let n := (number 10 [a, b]).toNat
    if isDecimal a && isDecimal b && low ≤ n && n ≤ high then some (n, u) else none
  | _ => none

def mark? (c : CodePoint) : Text → Option Text
  | [] => none
  | d :: t => if d = c then some t else none

/-- A fraction of a second, if one starts here. -/
def skipSecondFraction (t : Text) : Text :=
  match t with
  | [] => t
  | c :: u => if c = '.' && u.head?.any isDecimal then u.dropWhile isDecimal else t

/-- Hours and minutes. -/
def clock? (t : Text) : Option Text := do
  let (_, t) ← twoDigits? 0 23 t
  let t ← mark? ':' t
  (twoDigits? 0 59 t).map (·.2)

/-- A time of day. -/
def time? (t : Text) : Option Text := do
  let t ← clock? t
  let t ← mark? ':' t
  let (_, t) ← twoDigits? 0 59 t
  some (skipSecondFraction t)

/-- The distance of a time zone, if one starts here. -/
def skipOffset (t : Text) : Text :=
  match t with
  | [] => t
  | c :: u =>
    if c = 'Z' ∨ c = 'z' then u
    else if c = '+' ∨ c = '-' then (clock? u).getD t
    else t

/-- A time behind a date, if one starts here. -/
def skipTime (t : Text) : Text :=
  match t with
  | [] => t
  | c :: u =>
    if c = 'T' ∨ c = 't' ∨ c = ' ' then ((time? u).map skipOffset).getD t else t

def isLeap (year : Nat) : Bool := (year % 4 = 0 && year % 100 ≠ 0) || year % 400 = 0

def daysIn (year month : Nat) : Nat :=
  if month = 2 then if isLeap year then 29 else 28
  else if month = 4 ∨ month = 6 ∨ month = 9 ∨ month = 11 then 30
  else 31

/-- A date with or without a time. Years start at one. -/
def date? (t : Text) : Option (Except Failure (Value × Text)) := do
  let (century, u) ← twoDigits? 0 99 t
  let (rest, u) ← twoDigits? 0 99 u
  let u ← mark? '-' u
  let (month, u) ← twoDigits? 1 12 u
  let u ← mark? '-' u
  let (day, u) ← twoDigits? 1 31 u
  let year := 100 * century + rest
  if year = 0 ∨ daysIn year month < day then some (fail .date t)
  else some (.ok (.scalar, skipTime u))

/-- Whatever starts with a digit or a sign, or else nothing. -/
def numeric (t : Text) : Except Failure (Value × Text) :=
  match date? t with
  | some reading => reading
  | none =>
    match time? t with
    | some u => .ok (.scalar, u)
    | none =>
      match basedInteger? t with
      | some (n, u) => .ok (.integer n, u)
      | none =>
        match decimalNumber? t with
        | some reading => reading
        | none =>
          match specialFloat? t with
          | some u => .ok (.scalar, u)
          | none => fail .value t

end LenSyntax.Toml

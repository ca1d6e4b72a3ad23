import LenSyntax.Lexeme.Fault
import LenSyntax.Token.CharClass

/-! Numeric literals: digits, then a fraction and an exponent where they stand. Word characters
behind a literal belong to it and make it invalid. -/
namespace LenSyntax.Number

/-- What is cut off the start of a text, what is wrong with it, and the text behind it. -/
structure Cut where
  taken : Text
  fault? : Option LexicalFault
  rest : Text

/-- Nothing is cut off. -/
def Cut.nothing (t : Text) : Cut := ⟨[], none, t⟩

/-- A point and the digits behind it. -/
def fraction (t : Text) : Cut :=
  match t with
  | [] => .nothing t
  | c :: u =>
    if c = '.' then
      let digits := u.takeWhile CodePoint.isDigit
      ⟨c :: digits, if digits = [] then some .missingFraction else none,
        u.dropWhile CodePoint.isDigit⟩
    else .nothing t

/-- The sign at the start of a text, and the text behind it. -/
def sign : Text → Text × Text
  | [] => ([], [])
  | c :: t => if c = '+' ∨ c = '-' then ([c], t) else ([], c :: t)

/-- The letter `e`, a sign and the digits behind it. Without sign and digits the letter belongs to
a word if more of a word follows. -/
def exponent (t : Text) : Cut :=
  match t with
  | [] => .nothing t
  | c :: u =>
    if c = 'e' ∨ c = 'E' then
      let s := sign u
      if (s.2.head?.any CodePoint.isDigit) then
        ⟨c :: (s.1 ++ s.2.takeWhile CodePoint.isDigit), none, s.2.dropWhile CodePoint.isDigit⟩
      else if s.1 ≠ [] ∨ !(u.head?.any CodePoint.continuesWord) then
        ⟨c :: s.1, some .missingExponent, s.2⟩
      else .nothing t
    else .nothing t

/-- The literal at the start of a text that starts with a digit. -/
def cut (t : Text) : Cut :=
  let whole := t.takeWhile CodePoint.isDigit
  let f := fraction (t.dropWhile CodePoint.isDigit)
  let e := if f.fault?.isSome then .nothing f.rest else exponent f.rest
  let word := e.rest.takeWhile CodePoint.continuesWord
  let raw := whole ++ f.taken ++ e.taken ++ word
  let glued := if word = [] then none else some (.invalidNumber raw)
  ⟨raw, f.fault?.or (e.fault?.or glued), e.rest.dropWhile CodePoint.continuesWord⟩

theorem fraction_append (t : Text) : (fraction t).taken ++ (fraction t).rest = t := by
  unfold fraction
  split
  · rfl
  · split
    · simp
    · rfl

theorem sign_append (t : Text) : (sign t).1 ++ (sign t).2 = t := by
  cases t with
  | nil => rfl
  | cons c t => simp only [sign]; split <;> rfl

theorem exponent_append (t : Text) : (exponent t).taken ++ (exponent t).rest = t := by
  cases t with
  | nil => rfl
  | cons c u =>
    have h := sign_append u
    simp only [exponent]
    split
    · split
      · simp [h]
      · split
        · simp [h]
        · rfl
    · rfl

theorem cut_append (t : Text) : (cut t).taken ++ (cut t).rest = t := by
  have hf := fraction_append (t.dropWhile CodePoint.isDigit)
  simp only [cut]
  generalize fraction (t.dropWhile CodePoint.isDigit) = f at hf
  have he : (if f.fault?.isSome then Cut.nothing f.rest else exponent f.rest).taken ++
      (if f.fault?.isSome then Cut.nothing f.rest else exponent f.rest).rest = f.rest := by
    split
    · rfl
    · exact exponent_append f.rest
  generalize (if f.fault?.isSome then Cut.nothing f.rest else exponent f.rest) = e at he
  simp only [List.append_assoc, List.takeWhile_append_dropWhile, he, hf]

/-- The value of a valid literal: an integer loses its leading zeros, any other number stays as it
is written. -/
def canonical (raw : Text) : Text :=
  if raw.all CodePoint.isDigit then
    if raw.all (· = CodePoint.ofChar '0') then "0"
    else raw.dropWhile (· = CodePoint.ofChar '0')
  else raw

end LenSyntax.Number

import LenSyntax.Lexeme.Fault
import LenSyntax.Token.CharClass

/-! The body of a string literal as a list of pieces: plain code points and escapes. A bad escape
stays in the value as it is written, except that a number which is no scalar value gives the
replacement character. -/
namespace LenSyntax

/-- `simple` is a backslash with a letter that has a meaning of its own, `numeric` one with a letter
that asks for `width` hexadecimal digits, `unknown` one with anything else. -/
inductive Piece where
  | plain (c : CodePoint)
  | simple (letter meaning : CodePoint)
  | numeric (letter : CodePoint) (width : Nat) (digits : Text)
  | unknown (c : CodePoint)
  deriving DecidableEq

namespace Piece

def raw : Piece → Text
  | plain c => [c]
  | simple letter _ => ['\\', letter]
  | numeric letter _ digits => '\\' :: letter :: digits
  | unknown c => ['\\', c]

theorem raw_length_pos (p : Piece) : 0 < p.raw.length := by cases p <;> simp [raw]

def fault? : Piece → Option EscapeFault
  | plain _ => none
  | simple _ _ => none
  | numeric _ width digits =>
    if digits.length < width then some (.incomplete width digits.length)
    else if 0x10FFFF < digits.hexNumber ∨
        (0xD800 ≤ digits.hexNumber ∧ digits.hexNumber ≤ 0xDFFF) then
      some (.outOfRange digits)
    else none
  | unknown c => some (.unknown c)

def value : Piece → Text
  | plain c => [c]
  | simple _ meaning => [meaning]
  | numeric letter width digits =>
    match (numeric letter width digits).fault? with
    | some (.outOfRange _) => [.replacement]
    | some _ => '\\' :: letter :: digits
    | none => [.ofNat digits.hexNumber]
  | unknown c => ['\\', c]

end Piece

namespace Literal

/-- The letters that stand for one code point after a backslash. -/
def simpleEscapes : List (CodePoint × CodePoint) :=
  [('\\', '\\'), ('"', '"'), ('n', '\n'), ('t', '\t'), ('r', '\r'), ('0', '\x00')]

/-- The letters that ask for hexadecimal digits after a backslash, with the number of digits. -/
def numericEscapes : List (CodePoint × Nat) := [('x', 2), ('U', 8)]

/-- The escape whose backslash stands in front of a text. -/
def escape (c : CodePoint) (t : Text) : Piece × Text :=
  match simpleEscapes.lookup c, numericEscapes.lookup c with
  | some meaning, _ => (.simple c meaning, t)
  | none, some width =>
    let digits := (t.take width).takeWhile CodePoint.isHexDigit
    (.numeric c width digits, t.drop digits.length)
  | none, none => (.unknown c, t)

theorem escape_raw_append (c : CodePoint) (t : Text) :
    (escape c t).1.raw ++ (escape c t).2 = CodePoint.ofChar '\\' :: c :: t := by
  unfold escape
  split
  · rfl
  · next width _ _ =>
    have h : (t.take width).takeWhile CodePoint.isHexDigit <+: t :=
      (List.takeWhile_prefix _).trans (List.take_prefix _ _)
    obtain ⟨u, hu⟩ := h
    simp only [Piece.raw, List.cons_append]
    generalize (t.take width).takeWhile CodePoint.isHexDigit = digits at hu
    subst hu
    simp
  · rfl

theorem escape_snd_length_le (c : CodePoint) (t : Text) : (escape c t).2.length ≤ t.length := by
  have h := congrArg List.length (escape_raw_append c t)
  have h1 : 2 ≤ (escape c t).1.raw.length := by
    unfold escape; split <;> simp [Piece.raw]
  simp only [List.length_append, List.length_cons] at h
  omega

/-- The pieces of a body up to its closing quote, and the text behind the quote; a line feed or the
end in front of the quote gives nothing. `read` holds the pieces so far, latest first. -/
def bodyAux (read : List Piece) : Text → Option (List Piece × Text)
  | [] => none
  | c :: t =>
    if c = '"' then some (read.reverse, t)
    else if c = '\n' then none
    else if c = '\\' then
      match t with
      | [] => none
      | d :: u =>
        if d = '\n' then none
        else bodyAux ((escape d u).1 :: read) (escape d u).2
    else bodyAux (.plain c :: read) t
  termination_by t => t.length
  decreasing_by
  · have := escape_snd_length_le d u
    simp only [List.length_cons]; omega
  · simp

/-- The pieces of a body whose opening quote stands in front of a text. -/
def body (t : Text) : Option (List Piece × Text) := bodyAux [] t

theorem bodyAux_raw_append {read ps : List Piece} {t rest : Text}
    (h : bodyAux read t = some (ps, rest)) :
    read.reverse.flatMap Piece.raw ++ t = ps.flatMap Piece.raw ++ CodePoint.ofChar '"' :: rest := by
  fun_induction bodyAux read t with
  | case1 => simp at h
  | case2 read t => obtain ⟨rfl, rfl⟩ := h; rfl
  | case3 => simp at h
  | case4 => simp at h
  | case5 => simp at h
  | case6 read d u _ _ _ ih =>
    rw [← ih h]
    simp [escape_raw_append]
  | case7 read c t _ _ _ ih =>
    rw [← ih h]
    simp [Piece.raw]

theorem body_raw_append {t rest : Text} {ps : List Piece} (h : body t = some (ps, rest)) :
    ps.flatMap Piece.raw ++ CodePoint.ofChar '"' :: rest = t := (bodyAux_raw_append h).symm

end Literal
end LenSyntax

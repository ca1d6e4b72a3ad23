import LenSyntax.Text.CodePoint

/-! Texts are lists of code points. `splitBefore` is the one way in which a scan stops: it cuts a
text in front of its first suffix with a property, and nothing is lost. -/
namespace LenSyntax

abbrev Text := List CodePoint

instance : LawfulBEq Text := inferInstance

namespace Text

def ofString (s : String) : Text := s.toList.map CodePoint.ofChar

instance : Coe String Text := ⟨ofString⟩

/-- The string of a text that holds no surrogate. -/
def toString? (t : Text) : Option String := (t.mapM CodePoint.toChar?).map String.ofList

/-- The decimal numeral of a number. -/
def ofNat (n : Nat) : Text := (Nat.toDigits 10 n).map CodePoint.ofChar

def ofInt : Int → Text
  | .ofNat n => ofNat n
  | .negSucc n => "-" ++ ofNat (n + 1)

/-- The last `width` hexadecimal digits of a number. -/
def hex : (width : Nat) → Nat → Text
  | 0, _ => []
  | width + 1, n => hex width (n / 16) ++ [CodePoint.hexDigit (n % 16)]

@[simp] theorem hex_length (width n : Nat) : (hex width n).length = width := by
  induction width generalizing n with
  | zero => rfl
  | succ width ih => simp [hex, ih]

/-- The number that hexadecimal digits spell; other code points count as zero. -/
def hexNumber (t : Text) : Nat :=
  t.foldl (fun n c => 16 * n + (c.hexValue?.getD 0)) 0

def spaces (n : Nat) : Text := List.replicate n ' '

/-- Fills up with spaces to at least `width`. -/
def padRight (width : Nat) (t : Text) : Text := t ++ spaces (width - t.length)

/-- Each text followed by a line feed. -/
def unlines (ts : List Text) : Text := ts.flatMap (· ++ "\n")

theorem unlines_append (ts us : List Text) : unlines (ts ++ us) = unlines ts ++ unlines us :=
  List.flatMap_append

def joinWith (separator : Text) : List Text → Text
  | [] => []
  | [t] => t
  | t :: u :: ts => t ++ separator ++ joinWith separator (u :: ts)

/-- Cuts in front of the first suffix with property `p`; `taken` holds what is passed, backwards. -/
def splitBeforeAux (p : Text → Bool) (taken : Text) : Text → Text × Text
  | [] => (taken.reverse, [])
  | c :: t => if p (c :: t) then (taken.reverse, c :: t) else splitBeforeAux p (c :: taken) t

/-- Cuts a text in front of its first non-empty suffix with property `p`. -/
def splitBefore (p : Text → Bool) (t : Text) : Text × Text := splitBeforeAux p [] t

theorem splitBeforeAux_eq (p : Text → Bool) (taken t : Text) :
    splitBeforeAux p taken t =
      (taken.reverse ++ (splitBefore p t).1, (splitBefore p t).2) := by
  induction t generalizing taken with
  | nil => simp [splitBefore, splitBeforeAux]
  | cons c t ih =>
    by_cases h : p (c :: t)
    · simp [splitBefore, splitBeforeAux, h]
    · have h1 := ih (c :: taken)
      have h2 := ih [c]
      simp only [splitBefore, splitBeforeAux, h, Bool.false_eq_true, if_false] at *
      rw [h1, h2]
      simp

@[simp] theorem splitBefore_nil (p : Text → Bool) : splitBefore p [] = ([], []) := rfl

theorem splitBefore_cons (p : Text → Bool) (c : CodePoint) (t : Text) :
    splitBefore p (c :: t) =
      if p (c :: t) then ([], c :: t) else (c :: (splitBefore p t).1, (splitBefore p t).2) := by
  by_cases h : p (c :: t)
  · simp [splitBefore, splitBeforeAux, h]
  · simp only [splitBefore, splitBeforeAux, h, Bool.false_eq_true, if_false]
    rw [splitBeforeAux_eq]
    simp [splitBefore]

@[simp] theorem splitBefore_append (p : Text → Bool) (t : Text) :
    (splitBefore p t).1 ++ (splitBefore p t).2 = t := by
  induction t with
  | nil => rfl
  | cons c t ih => rw [splitBefore_cons]; split <;> simp [ih]

/-- The second part is empty or has the property. -/
theorem splitBefore_snd (p : Text → Bool) (t : Text) :
    (splitBefore p t).2 = [] ∨ p (splitBefore p t).2 := by
  induction t with
  | nil => exact .inl rfl
  | cons c t ih =>
    rw [splitBefore_cons]
    split
    · next h => exact .inr h
    · exact ih

theorem splitBefore_snd_length_le (p : Text → Bool) (t : Text) :
    (splitBefore p t).2.length ≤ t.length := by
  have h := congrArg List.length (splitBefore_append p t)
  simp only [List.length_append] at h
  omega

end Text
end LenSyntax

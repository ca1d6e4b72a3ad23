/-! Code points: the numbers below `0x110000`. Surrogates are code points too, so a text can hold
what no sequence of characters holds. -/
namespace LenSyntax

structure CodePoint where
  val : Nat
  isLt : val < 0x110000
  deriving DecidableEq

namespace CodePoint

@[ext] theorem ext {a b : CodePoint} (h : a.val = b.val) : a = b := by
  cases a; cases b; cases h; rfl

instance : LT CodePoint := ⟨fun a b => a.val < b.val⟩
instance : LE CodePoint := ⟨fun a b => a.val ≤ b.val⟩
instance (a b : CodePoint) : Decidable (a < b) := inferInstanceAs (Decidable (a.val < b.val))
instance (a b : CodePoint) : Decidable (a ≤ b) := inferInstanceAs (Decidable (a.val ≤ b.val))

/-- What stands for input that is no code point. -/
def replacement : CodePoint := ⟨0xFFFD, by decide⟩

instance : Inhabited CodePoint := ⟨replacement⟩

/-- The code point with a given number; a number that is too large gives the replacement. -/
def ofNat (n : Nat) : CodePoint := if h : n < 0x110000 then ⟨n, h⟩ else replacement

@[simp] theorem ofNat_val (c : CodePoint) : ofNat c.val = c := by simp [ofNat, c.isLt]

theorem val_ofNat {n : Nat} (h : n < 0x110000) : (ofNat n).val = n := by simp [ofNat, h]

def ofChar (c : Char) : CodePoint where
  val := c.toNat
  isLt := by
    have h := c.valid
    simp only [UInt32.isValidChar, Nat.isValidChar] at h
    show c.val.toNat < _
    omega

@[simp] theorem val_ofChar (c : Char) : (ofChar c).val = c.toNat := rfl

@[simp] theorem ofChar_inj {c d : Char} : ofChar c = ofChar d ↔ c = d := by
  constructor
  · intro h
    exact Char.toNat_inj.1 (congrArg val h)
  · rintro rfl; rfl

instance : Coe Char CodePoint := ⟨ofChar⟩

def isSurrogate (c : CodePoint) : Bool := 0xD800 ≤ c.val && c.val ≤ 0xDFFF

/-- The character with this number, which a surrogate does not have. -/
def toChar? (c : CodePoint) : Option Char :=
  if h : c.val.isValidChar then some (Char.ofNatAux c.val h) else none

/-- The lower-case hexadecimal digit of a number below sixteen. -/
def hexDigit (n : Nat) : CodePoint :=
  if n < 10 then ofNat (0x30 + n) else ofNat (0x57 + n)

/-- The value of a hexadecimal digit of either case. -/
def hexValue? (c : CodePoint) : Option Nat :=
  if 0x30 ≤ c.val ∧ c.val ≤ 0x39 then some (c.val - 0x30)
  else if 0x61 ≤ c.val ∧ c.val ≤ 0x66 then some (c.val - 0x57)
  else if 0x41 ≤ c.val ∧ c.val ≤ 0x46 then some (c.val - 0x37)
  else none

end CodePoint
end LenSyntax

import LenSyntax.Text.CodePoint

/-! Sets of numbers as increasing lists of closed ranges. -/
namespace LenSyntax

abbrev Ranges := List (Nat × Nat)

namespace Ranges

/-- Stops at the first range that starts above the number. -/
def contains (n : Nat) : Ranges → Bool
  | [] => false
  | (first, last) :: rest => first ≤ n && (n ≤ last || contains n rest)

/-- Every range starts above the end of the one before it. -/
def Increasing : Ranges → Prop
  | [] => True
  | (first, last) :: rest => first ≤ last ∧ (∀ r ∈ rest.head?, last < r.1) ∧ Increasing rest

instance decidableIncreasing : (rs : Ranges) → Decidable rs.Increasing
  | [] => isTrue trivial
  | (first, last) :: rest =>
    have := decidableIncreasing rest
    inferInstanceAs (Decidable (first ≤ last ∧ (∀ r ∈ rest.head?, last < r.1) ∧ Increasing rest))

end Ranges
end LenSyntax

import LenSyntax.Proofs.Text.Delimiting
import Mathlib.Algebra.Group.Nat.Defs

/-! Quoted texts can be read back. Every escape shows its code point and where it ends, and a
closing quote is never part of one. -/
namespace LenSyntax

theorem CodePoint.hexValue?_hexDigit {n : Nat} (h : n < 16) : hexValue? (hexDigit n) = some n := by
  have hval := val_hexDigit h
  unfold hexValue?
  split at hval
  · rw [if_pos (by omega)]
    exact congrArg some (by omega)
  · rw [if_neg (by omega), if_pos (by omega)]
    exact congrArg some (by omega)

namespace Text

theorem hexNumber_concat (t : Text) (c : CodePoint) :
    hexNumber (t ++ [c]) = 16 * hexNumber t + c.hexValue?.getD 0 := by
  simp [hexNumber]

/-- Enough digits show a number. -/
theorem hexNumber_hex {width n : Nat} (h : n < 16 ^ width) : hexNumber (hex width n) = n := by
  induction width generalizing n with
  | zero => rw [Nat.pow_zero, Nat.lt_one_iff] at h; rw [h]; rfl
  | succ width ih =>
    rw [Nat.pow_succ] at h
    have hdigit := CodePoint.hexValue?_hexDigit (Nat.mod_lt n (by decide : 0 < 16))
    rw [hex, hexNumber_concat, ih (by omega), hdigit]
    exact Nat.div_add_mod n 16

/-- The code point that an escape stands for, and the text behind it; the backslash stands in front
of the given letter. -/
def unescapeBehind (letter : CodePoint) (t : Text) : CodePoint × Text :=
  let meanings : List (CodePoint × CodePoint) := [('n', '\n'), ('r', '\r'), ('t', '\t')]
  let widths : List (CodePoint × Nat) := [('x', 2), ('u', 4), ('U', 8)]
  match meanings.lookup letter, widths.lookup letter with
  | some meaning, _ => (meaning, t)
  | none, some width => (.ofNat (hexNumber (t.take width)), t.drop width)
  | none, none => (letter, t)

/-- The first code point between quotes, escaped or not, and the text behind it. -/
def unescape (c : CodePoint) (t : Text) : CodePoint × Text :=
  if c = '\\' then
    match t with
    | [] => (c, [])
    | letter :: t => unescapeBehind letter t
  else (c, t)

theorem unescape_hex (letter : CodePoint) {width : Nat}
    (hl : unescapeBehind letter = fun t => (.ofNat (hexNumber (t.take width)), t.drop width))
    {c : CodePoint} (hc : c.val < 16 ^ width) (t : Text) :
    unescape '\\' (letter :: (hex width c.val ++ t)) = (c, t) := by
  rw [unescape, if_pos rfl, hl]
  simp only [List.take_append_of_le_length (Nat.le_of_eq (hex_length width c.val).symm),
    List.take_of_length_le (Nat.le_of_eq (hex_length width c.val)), hexNumber_hex hc,
    CodePoint.ofNat_val]
  rw [List.drop_left' (hex_length width c.val)]

section Quote
variable {quote : CodePoint} (hq : quote = CodePoint.ofChar '"' ∨ quote = CodePoint.ofChar '\'')
include hq

/-- An escape does not start with the quote, and it is read back as what it stands for. -/
theorem unescape_escape (c : CodePoint) (t : Text) :
    ∃ d u, escape quote c ++ t = d :: u ∧ d ≠ quote ∧ unescape d u = (c, t) := by
  have hslash : CodePoint.ofChar '\\' ≠ quote := by
    obtain rfl | rfl := hq <;> decide
  unfold escape
  split
  · next h =>
    refine ⟨_, _, rfl, hslash, ?_⟩
    obtain rfl | rfl := h
    · rfl
    · obtain rfl | rfl := hq <;> rfl
  split
  · next h => subst h; exact ⟨_, _, rfl, hslash, rfl⟩
  split
  · next h => subst h; exact ⟨_, _, rfl, hslash, rfl⟩
  split
  · next h => subst h; exact ⟨_, _, rfl, hslash, rfl⟩
  split
  · next h _ _ _ _ =>
    rw [not_or] at h
    exact ⟨c, t, rfl, h.2, if_neg h.1⟩
  · unfold numericEscape
    split
    · next hc => exact ⟨_, _, rfl, hslash, unescape_hex 'x' rfl hc t⟩
    split
    · next hc => exact ⟨_, _, rfl, hslash, unescape_hex 'u' rfl hc t⟩
    · exact ⟨_, _, rfl, hslash,
        unescape_hex 'U' rfl (Nat.lt_trans c.isLt (by decide)) t⟩

/-- Escapes up to a quote are those of one text. -/
theorem flatMap_escape_inj {t u v w : Text}
    (h : t.flatMap (escape quote) ++ quote :: v = u.flatMap (escape quote) ++ quote :: w) :
    t = u ∧ v = w := by
  induction t generalizing u with
  | nil =>
    cases u with
    | nil => exact ⟨rfl, (List.cons.inj h).2⟩
    | cons c u =>
      obtain ⟨d, rest, hd, hne, -⟩ := unescape_escape hq c (u.flatMap (escape quote) ++ quote :: w)
      rw [List.flatMap_cons, List.append_assoc, hd] at h
      exact absurd (List.cons.inj h).1.symm hne
  | cons b t ih =>
    obtain ⟨d, rest, hd, hne, hread⟩ :=
      unescape_escape hq b (t.flatMap (escape quote) ++ quote :: v)
    rw [List.flatMap_cons, List.append_assoc, hd] at h
    cases u with
    | nil => exact absurd (List.cons.inj h).1 hne
    | cons c u =>
      obtain ⟨d', rest', hd', -, hread'⟩ :=
        unescape_escape hq c (u.flatMap (escape quote) ++ quote :: w)
      rw [List.flatMap_cons, List.append_assoc, hd'] at h
      obtain ⟨rfl, rfl⟩ := List.cons.inj h
      rw [hread] at hread'
      obtain ⟨rfl, hmore⟩ := Prod.mk.inj hread'
      obtain ⟨rfl, hback⟩ := ih hmore
      exact ⟨rfl, hback⟩

end Quote

/-- A quoted text ends with its closing quote, and shows the text between the quotes. -/
theorem prefixFree_quoted : PrefixFree quoted := by
  intro t u v w h
  have hcons (t v : Text) : t.quoted ++ v =
      quoteFor t :: (t.flatMap (escape (quoteFor t)) ++ quoteFor t :: v) := by
    rw [quoted, List.cons_append, List.cons_append, List.append_assoc]
    rfl
  rw [hcons, hcons] at h
  obtain ⟨hquote, hinside⟩ := List.cons.inj h
  rw [← hquote] at hinside
  exact flatMap_escape_inj (quoteFor_eq t) hinside

end Text

end LenSyntax

import LenSyntax.Text.Basic

/-! UTF-16 code units: two for a code point above `0xFFFF` and one for every other, lone surrogates
included. -/
namespace LenSyntax

namespace CodePoint

/-- The code units of a code point, as numbers. -/
def units16 (c : CodePoint) : List Nat :=
  if c.val < 0x10000 then [c.val]
  else [0xD800 + (c.val - 0x10000) / 0x400, 0xDC00 + (c.val - 0x10000) % 0x400]

/-- The number of code units of a code point. -/
def width16 (c : CodePoint) : Nat := if c.val < 0x10000 then 1 else 2

@[simp] theorem units16_length (c : CodePoint) : c.units16.length = c.width16 := by
  simp only [units16, width16]; split <;> rfl

end CodePoint

/-- The number of code units of a text. -/
def Text.width16 (t : Text) : Nat := t.foldr (fun c n => c.width16 + n) 0

@[simp] theorem Text.width16_nil : Text.width16 [] = 0 := rfl

@[simp] theorem Text.width16_cons (c : CodePoint) (t : Text) :
    Text.width16 (c :: t) = c.width16 + Text.width16 t := rfl

@[simp] theorem Text.width16_append (s t : Text) :
    Text.width16 (s ++ t) = Text.width16 s + Text.width16 t := by
  induction s with
  | nil => exact (Nat.zero_add _).symm
  | cons c s ih => rw [List.cons_append, width16_cons, width16_cons, ih, Nat.add_assoc]

/-- Widths behind each code point, appended to those at hand; `width` is the last of these. -/
def Text.widthsAux (widths : Array Nat) (width : Nat) : Text → Array Nat
  | [] => widths
  | c :: t => widthsAux (widths.push (width + c.width16)) (width + c.width16) t

/-- The widths of the starts of a text, from the empty one on. -/
def Text.widths (t : Text) : Array Nat := widthsAux #[0] 0 t

theorem Text.widthsAux_toList (widths : Array Nat) (width : Nat) (t : Text) :
    (widthsAux widths width t).toList =
      widths.toList ++
        (List.range t.length).map fun n => width + Text.width16 (t.take (n + 1)) := by
  induction t generalizing widths width with
  | nil => simp [widthsAux]
  | cons c t ih =>
    rw [widthsAux, ih, List.length_cons, List.range_succ_eq_map]
    simp [Function.comp_def, Nat.add_assoc]

theorem Text.widths_toList (t : Text) :
    t.widths.toList = (List.range (t.length + 1)).map fun n => Text.width16 (t.take n) := by
  rw [widths, widthsAux_toList, List.range_succ_eq_map]
  simp [Function.comp_def]

@[simp] theorem Text.widths_size (t : Text) : t.widths.size = t.length + 1 := by
  rw [← Array.length_toList, widths_toList, List.length_map, List.length_range]

theorem Text.widths_getElem? (t : Text) {n : Nat} (h : n ≤ t.length) :
    t.widths[n]? = some (Text.width16 (t.take n)) := by
  rw [← Array.getElem?_toList, widths_toList, List.getElem?_map,
    List.getElem?_range (Nat.lt_succ_of_le h)]
  rfl

end LenSyntax

import LenSyntax.Editor
import LenSyntax.Proofs.Text.Lines

/-! Places in editors and offsets. Counting code units back from the start of a line leads from a
place to the offset that it stands for; the place of a position leads to the offset of that
position, and places are in the order of their offsets. -/
namespace LenSyntax

theorem CodePoint.width16_pos (c : CodePoint) : 0 < c.width16 := by
  unfold width16
  split <;> decide

namespace Text

/-- How many code points at the start of a text have `units` UTF-16 code units together; nothing if
the text is shorter or a code point reaches over that many units. -/
def pointsOf? : (units : Nat) → Text → Option Nat
  | 0, _ => some 0
  | _ + 1, [] => none
  | units + 1, c :: t =>
    if c.width16 ≤ units + 1 then (pointsOf? (units + 1 - c.width16) t).map (· + 1) else none

theorem pointsOf?_cons (units : Nat) (c : CodePoint) (t : Text) :
    pointsOf? (c.width16 + units) (c :: t) = (pointsOf? units t).map (· + 1) := by
  obtain ⟨width, hwidth⟩ := Nat.exists_eq_succ_of_ne_zero (Nat.pos_iff_ne_zero.1 c.width16_pos)
  rw [hwidth, Nat.succ_add, pointsOf?, if_pos (by omega)]
  congr 2
  omega

theorem pointsOf?_width16_take (t : Text) {n : Nat} (h : n ≤ t.length) :
    pointsOf? (width16 (t.take n)) t = some n := by
  induction t generalizing n with
  | nil =>
    obtain rfl : n = 0 := by simpa using h
    rfl
  | cons c t ih =>
    cases n with
    | zero => simp [pointsOf?]
    | succ n =>
      rw [List.take_succ_cons, width16_cons, pointsOf?_cons, ih (by simpa using h)]
      rfl

/-- The count is a part of the text, and has the units. -/
theorem of_pointsOf?_eq_some {units n : Nat} {t : Text} (h : pointsOf? units t = some n) :
    n ≤ t.length ∧ width16 (t.take n) = units := by
  induction t generalizing units n with
  | nil =>
    cases units with
    | zero =>
      obtain rfl : 0 = n := by simpa [pointsOf?] using h
      exact ⟨Nat.le_refl 0, rfl⟩
    | succ units => simp [pointsOf?] at h
  | cons c t ih =>
    cases units with
    | zero =>
      obtain rfl : 0 = n := by simpa [pointsOf?] using h
      exact ⟨Nat.zero_le _, rfl⟩
    | succ units =>
      rw [pointsOf?] at h
      split at h
      · obtain ⟨m, hm, rfl⟩ := Option.map_eq_some_iff.1 h
        obtain ⟨hle, hwidth⟩ := ih hm
        rw [List.length_cons, List.take_succ_cons, width16_cons, hwidth]
        omega
      · cases h

theorem width16_take_le (t : Text) {m n : Nat} (h : m ≤ n) :
    width16 (t.take m) ≤ width16 (t.take n) := by
  obtain ⟨more, rfl⟩ := Nat.exists_eq_add_of_le h
  rw [List.take_add, width16_append]
  exact Nat.le_add_right _ _

theorem width16_take_le_width16 (t : Text) (n : Nat) : width16 (t.take n) ≤ width16 t := by
  conv_rhs => rw [← List.take_append_drop n t, width16_append]
  exact Nat.le_add_right _ _

theorem length_le_width16 (t : Text) : t.length ≤ width16 t := by
  induction t with
  | nil => exact Nat.le_refl 0
  | cons c t ih =>
    have hpos := c.width16_pos
    rw [List.length_cons, width16_cons]
    omega

theorem count_le_width16 (t : Text) (c : CodePoint) : t.count c ≤ width16 t :=
  Nat.le_trans List.count_le_length t.length_le_width16

theorem width16_le_of_mem_linesAux {line t shown : Text} (h : shown ∈ linesAux line t) :
    width16 shown ≤ width16 (line.reverse ++ t) := by
  induction t generalizing line with
  | nil =>
    obtain rfl := List.mem_singleton.1 h
    exact Nat.le_of_eq (congrArg width16 (List.append_nil _).symm)
  | cons c t ih =>
    rw [linesAux] at h
    split at h
    · obtain rfl | h := List.mem_cons.1 h
      · rw [width16_append]
        exact Nat.le_add_right _ _
      · have hbelow := ih h
        rw [List.reverse_nil, List.nil_append] at hbelow
        rw [width16_append, width16_cons]
        omega
    · have hsame := ih h
      rwa [List.reverse_cons, List.append_assoc] at hsame

theorem width16_le_of_mem_lines (t : Text) {shown : Text} (h : shown ∈ t.lines) :
    width16 shown ≤ width16 t := width16_le_of_mem_linesAux h

end Text

namespace Editor

/-- Places are in order by their lines, and on one line by their characters. -/
instance : LE Place :=
  ⟨fun p q => p.line < q.line ∨ p.line = q.line ∧ p.character ≤ q.character⟩

instance : LT Place :=
  ⟨fun p q => p.line < q.line ∨ p.line = q.line ∧ p.character < q.character⟩

namespace Place
variable {text : Text} {p q : Place} {m n : Nat}

theorem le_def : p ≤ q ↔ p.line < q.line ∨ p.line = q.line ∧ p.character ≤ q.character := Iff.rfl

theorem lt_def : p < q ↔ p.line < q.line ∨ p.line = q.line ∧ p.character < q.character := Iff.rfl

/-- The offset that a place stands for: as many code points behind the start of its line as have
its number of code units. -/
def offset? (text : Text) (p : Place) : Option Nat :=
  text.lines[p.line]?.bind fun shown =>
    (shown.pointsOf? p.character).map (text.lineStart p.line + ·)

theorem offset?_eq_some_iff : p.offset? text = some n ↔
    ∃ shown column, text.lines[p.line]? = some shown ∧ column ≤ shown.length ∧
      Text.width16 (shown.take column) = p.character ∧ n = text.lineStart p.line + column := by
  constructor
  · intro h
    obtain ⟨shown, hline, h⟩ := Option.bind_eq_some_iff.1 h
    obtain ⟨column, hpoints, rfl⟩ := Option.map_eq_some_iff.1 h
    obtain ⟨hle, hwidth⟩ := Text.of_pointsOf?_eq_some hpoints
    exact ⟨shown, column, hline, hle, hwidth, rfl⟩
  · rintro ⟨shown, column, hline, hle, hwidth, rfl⟩
    rw [offset?, hline, Option.bind_some, ← hwidth, Text.pointsOf?_width16_take _ hle]
    rfl

/-- Of two places that stand for offsets the one with the smaller offset comes first. -/
theorem lt_of_offset_lt (hp : p.offset? text = some m) (hq : q.offset? text = some n)
    (h : m < n) : p < q := by
  obtain ⟨shown, column, hline, hle, hwidth, rfl⟩ := offset?_eq_some_iff.1 hp
  obtain ⟨other, column', hline', hle', hwidth', rfl⟩ := offset?_eq_some_iff.1 hq
  rw [lt_def]
  obtain hlt | heq | hgt := Nat.lt_trichotomy p.line q.line
  · exact .inl hlt
  · refine .inr ⟨heq, ?_⟩
    rw [heq] at hline h
    obtain rfl : shown = other := Option.some_inj.1 (hline.symm.trans hline')
    have hcolumns : column < column' := by omega
    -- one more code point has at least one more unit
    rw [← hwidth, ← hwidth']
    refine Nat.lt_of_lt_of_le ?_ (shown.width16_take_le hcolumns)
    rw [List.take_succ_eq_append_getElem (by omega), Text.width16_append, Text.width16_cons]
    exact Nat.lt_add_of_pos_right (Nat.add_pos_left (CodePoint.width16_pos _) _)
  · have hbefore := Text.lineStart_add_length_lt hline' hgt
    omega

theorem eq_of_offset_eq (hp : p.offset? text = some n) (hq : q.offset? text = some n) : p = q := by
  obtain ⟨shown, column, hline, hle, hwidth, hn⟩ := offset?_eq_some_iff.1 hp
  obtain ⟨other, column', hline', hle', hwidth', hn'⟩ := offset?_eq_some_iff.1 hq
  obtain hlt | heq | hgt := Nat.lt_trichotomy p.line q.line
  · have hbefore := Text.lineStart_add_length_lt hline hlt
    omega
  · rw [heq] at hline hn
    obtain rfl : shown = other := Option.some_inj.1 (hline.symm.trans hline')
    obtain rfl : column = column' := by omega
    exact Place.ext heq (hwidth.symm.trans hwidth')
  · have hbefore := Text.lineStart_add_length_lt hline' hgt
    omega

theorem lt_irrefl : ¬ p < p := by
  rw [lt_def]
  omega

theorem lt_asymm (h : p < q) : ¬ q < p := by
  rw [lt_def] at *
  omega

theorem le_of_lt (h : p < q) : p ≤ q := by
  rw [lt_def] at h
  rw [le_def]
  omega

theorem le_refl : p ≤ p := .inr ⟨rfl, Nat.le_refl _⟩

/-- The places that stand for offsets are in the order of these. -/
theorem lt_iff_offset_lt (hp : p.offset? text = some m) (hq : q.offset? text = some n) :
    p < q ↔ m < n := by
  refine ⟨?_, lt_of_offset_lt hp hq⟩
  intro h
  obtain hlt | rfl | hgt := Nat.lt_trichotomy m n
  · exact hlt
  · exact absurd (eq_of_offset_eq hp hq ▸ h) lt_irrefl
  · exact absurd (lt_of_offset_lt hq hp hgt) (lt_asymm h)

theorem le_of_offset_le (hp : p.offset? text = some m) (hq : q.offset? text = some n)
    (h : m ≤ n) : p ≤ q := by
  obtain hlt | rfl := Nat.lt_or_eq_of_le h
  · exact le_of_lt (lt_of_offset_lt hp hq hlt)
  · rw [eq_of_offset_eq hp hq]
    exact le_refl

end Place

/-- The width of a line of a text in front of a column. -/
theorem Layout.character_of_lines {text shown : Text} {line : Nat}
    (h : text.lines[line]? = some shown) (column : Nat) :
    (Layout.ofText text).character line column = Text.width16 (shown.take (column - 1)) := by
  rw [Layout.character_ofText, Text.line_of_getElem?_lines h]

/-- The place of a position is on its line; a line in front of the first one has been refused. -/
theorem of_place_eq_ok {v : Validator} {l : Layout} {p : Position} {place : Place}
    (h : Editor.place v l p = .ok place) :
    place.line = p.line - 1 ∧ place.character = l.character place.line p.column.toNat := by
  simp only [Editor.place] at h
  split at h
  · next htaken =>
    have hline : 0 ≤ p.line - 1 := by
      refine Int.not_lt.1 fun hneg => ?_
      exact Option.ne_none_iff_isSome.2 (v.isSome_of_neg _ _ hneg) htaken
    cases h
    exact ⟨Int.toNat_of_nonneg hline, if_pos hline⟩
  · cases h

/-- The place of a position that agrees with a text. -/
theorem offset?_of_place {v : Validator} {text : Text} {p : Position} {place : Place}
    (h : p.Coherent text) (hplace : Editor.place v (.ofText text) p = .ok place) :
    place.offset? text = some p.offset.toNat := by
  obtain ⟨line, column, shown, hline, hcolumn, hshown, hle, hoffset⟩ := h.exists_line
  obtain ⟨hsame, hcharacter⟩ := of_place_eq_ok hplace
  obtain rfl : line = place.line := by omega
  rw [Layout.character_of_lines hshown] at hcharacter
  have hcolumns : p.column.toNat - 1 = column := by omega
  refine Place.offset?_eq_some_iff.2 ⟨shown, column, hshown, hle, ?_, by omega⟩
  rw [hcharacter, hcolumns]

end Editor

end LenSyntax

import LenSyntax.Text.Utf8
import Mathlib.Algebra.Group.Nat.Defs

/-! Bytes that are read with replacements. Every code point but a surrogate is spelled by bytes of
which only the first one starts a spelling, and the others go on with it. Where no spelling starts,
the longest piece that some spelling starts with is replaced, or one byte if there is no such piece.
So it is settled what bytes are read as, and whatever ends in front of a spelling is read as if
nothing came behind. -/
namespace LenSyntax.Utf8

/-- The first byte of the spelling of a number. -/
def opening (n : Nat) : Nat :=
  if n < 0x80 then n
  else if n < 0x800 then 0xC0 + n / 0x40
  else if n < 0x10000 then 0xE0 + n / 0x1000
  else 0xF0 + n / 0x40000

/-- How many bytes stand behind the first one. -/
def owed (n : Nat) : Nat :=
  if n < 0x80 then 0 else if n < 0x800 then 1 else if n < 0x10000 then 2 else 3

/-- The last bytes of the spelling of a number, with six bits of it in each. -/
def tail : (count : Nat) → (n : Nat) → Bytes
  | 0, _ => []
  | count + 1, n => .ofNat (0x80 + n / 64 ^ count % 64) :: tail count n

/-- Whether a byte goes on with a spelling. -/
def Continues (b : UInt8) : Prop := 0x80 ≤ b.toNat ∧ b.toNat < 0xC0

section Spelling
variable {c d : CodePoint} {b : UInt8} {s u : Bytes} {m n count : Nat}

theorem encodePoint_eq (c : CodePoint) :
    encodePoint c = .ofNat (opening c.val) :: tail (owed c.val) c.val := by
  simp only [encodePoint, opening, owed]
  split
  · rfl
  split
  · simp [tail]
  split <;> simp [tail]

theorem opening_lt (h : n < 0x110000) : opening n < 0x100 := by
  unfold opening
  split
  · omega
  split
  · omega
  split <;> omega

theorem toNat_opening (c : CodePoint) : (UInt8.ofNat (opening c.val)).toNat = opening c.val := by
  rw [UInt8.toNat_ofNat', Nat.mod_eq_of_lt (opening_lt c.isLt)]

theorem tail_length (count n : Nat) : (tail count n).length = count := by
  induction count with
  | zero => rfl
  | succ count ih => exact congrArg Nat.succ ih

theorem continues_of_mem_tail (h : b ∈ tail count n) : Continues b := by
  induction count with
  | zero => cases h
  | succ count ih =>
    cases h with
    | head =>
      have hlt : n / 64 ^ count % 64 < 64 := Nat.mod_lt _ (by decide)
      rw [Continues, UInt8.toNat_ofNat']
      omega
    | tail _ h => exact ih h

theorem not_continues_opening (c : CodePoint) : ¬ Continues (.ofNat (opening c.val)) := by
  rw [Continues, toNat_opening]
  have h := c.isLt
  unfold opening
  split
  · omega
  split
  · omega
  split <;> omega

/-- A spelling is as long as its number is large. -/
theorem opening_cases (n : Nat) :
    n < 0x80 ∧ owed n = 0 ∧ opening n = n ∨
      (0x80 ≤ n ∧ n < 0x800) ∧ owed n = 1 ∧ opening n = 0xC0 + n / 64 ∨
      (0x800 ≤ n ∧ n < 0x10000) ∧ owed n = 2 ∧ opening n = 0xE0 + n / 64 ^ 2 ∨
      0x10000 ≤ n ∧ owed n = 3 ∧ opening n = 0xF0 + n / 64 ^ 3 := by
  unfold opening owed
  split
  · omega
  split
  · omega
  split <;> omega

theorem owed_eq_of_opening_eq (hm : m < 0x110000) (hn : n < 0x110000)
    (h : opening m = opening n) : owed m = owed n ∧ m / 64 ^ owed m = n / 64 ^ owed n := by
  obtain ⟨_, hi, _⟩ | ⟨_, hi, _⟩ | ⟨_, hi, _⟩ | ⟨_, hi, _⟩ := opening_cases m <;>
    obtain ⟨_, hj, _⟩ | ⟨_, hj, _⟩ | ⟨_, hj, _⟩ | ⟨_, hj, _⟩ := opening_cases n <;>
      rw [hi, hj] <;> omega

theorem tail_append_inj (h : tail count m ++ s = tail count n ++ u) :
    m % 64 ^ count = n % 64 ^ count ∧ s = u := by
  induction count with
  | zero => exact ⟨by rw [Nat.pow_zero, Nat.mod_one, Nat.mod_one], h⟩
  | succ count ih =>
    obtain ⟨hhead, htail⟩ := List.cons_eq_cons.1 h
    obtain ⟨hmod, hrest⟩ := ih htail
    have hdigit : m / 64 ^ count % 64 = n / 64 ^ count % 64 := by
      have hbyte := congrArg UInt8.toNat hhead
      rw [UInt8.toNat_ofNat', UInt8.toNat_ofNat'] at hbyte
      omega
    exact ⟨by rw [Nat.mod_pow_succ, Nat.mod_pow_succ, hmod, hdigit], hrest⟩

/-- No spelling starts with another one. -/
theorem encodePoint_append_inj (h : encodePoint c ++ s = encodePoint d ++ u) : c = d ∧ s = u := by
  rw [encodePoint_eq, encodePoint_eq, List.cons_append, List.cons_append] at h
  obtain ⟨hhead, htail⟩ := List.cons_eq_cons.1 h
  have hopening : opening c.val = opening d.val := by
    rw [← toNat_opening, hhead, toNat_opening]
  obtain ⟨howed, hdiv⟩ := owed_eq_of_opening_eq c.isLt d.isLt hopening
  rw [howed] at htail hdiv
  obtain ⟨hmod, hrest⟩ := tail_append_inj htail
  refine ⟨CodePoint.ext ?_, hrest⟩
  rw [← Nat.div_add_mod c.val, hdiv, hmod, Nat.div_add_mod]

end Spelling

/-- Bytes that some spelling starts with. -/
def Initial (w : Bytes) : Prop := ∃ c : CodePoint, ¬ c.isSurrogate ∧ w <+: encodePoint c

/-- No spelling starts in front of `m ++ s`, and of what stands there `m` is replaced: it is the
longest piece that some spelling starts with, or one byte. -/
structure Damaged (m s : Bytes) : Prop where
  ne_nil : m ≠ []
  unspelled : ∀ c : CodePoint, ¬ c.isSurrogate → ¬ encodePoint c <+: m ++ s
  initial : m.length = 1 ∨ Initial m
  longest : ∀ w, w <+: m ++ s → Initial w → w.length ≤ m.length

/-- Bytes are read as a text: what is spelled is read, and each damaged piece is replaced. -/
inductive Replaces : Bytes → Text → Prop
  | nil : Replaces [] []
  | spelled {c : CodePoint} {s : Bytes} {t : Text} (hc : ¬ c.isSurrogate) (more : Replaces s t) :
      Replaces (encodePoint c ++ s) (c :: t)
  | damaged {m s : Bytes} {t : Text} (hm : Damaged m s) (more : Replaces s t) :
      Replaces (m ++ s) (.replacement :: t)

/-- Bytes that do not go on with what stands in front of them. -/
def Fresh (s : Bytes) : Prop := ∀ b ∈ s.head?, ¬ Continues b

section Reading
variable {a b m s u v w : Bytes} {t r : Text}

theorem encodePoint_ne_nil (c : CodePoint) : encodePoint c ≠ [] := by
  rw [encodePoint_eq]
  exact List.cons_ne_nil _ _

theorem fresh_encodePoint (c : CodePoint) (s : Bytes) : Fresh (encodePoint c ++ s) := by
  rw [encodePoint_eq]
  intro b hb
  cases hb
  exact not_continues_opening c

theorem Fresh.of_isPrefix (hs : Fresh s) (h : u <+: s) : Fresh u := by
  obtain ⟨x, rfl⟩ := h
  cases u with
  | nil => exact fun b hb => nomatch hb
  | cons b u => exact hs

/-- Behind its first byte a spelling does nothing but go on. -/
theorem Initial.eq_nil_of_fresh (h : Initial (v ++ s)) (hv : v ≠ []) (hs : Fresh s) : s = [] := by
  obtain ⟨c, -, hstarts⟩ := h
  cases s with
  | nil => rfl
  | cons b s =>
    cases v with
    | nil => exact absurd rfl hv
    | cons x v =>
      rw [encodePoint_eq, List.cons_append, List.cons_prefix_cons] at hstarts
      have hmem : b ∈ tail (owed c.val) c.val := hstarts.2.subset (by simp)
      exact absurd (continues_of_mem_tail hmem) (hs b rfl)

/-- Nothing that stands behind bytes and starts afresh makes a spelling longer. -/
theorem Initial.prefix_of_fresh (h : Initial w) (hw : w <+: v ++ s) (hv : v ≠ []) (hs : Fresh s) :
    w <+: v := by
  obtain hwv | ⟨x, rfl⟩ := List.prefix_or_prefix_of_prefix hw (List.prefix_append v s)
  · exact hwv
  · have hx : x <+: s := (List.prefix_append_right_inj v).1 hw
    obtain rfl : x = [] := h.eq_nil_of_fresh hv (hs.of_isPrefix hx)
    exact ⟨[], by simp⟩

theorem Damaged.append (h : Damaged m s) (hu : Fresh u) : Damaged m (s ++ u) := by
  have hne : m ++ s ≠ [] := by simp [h.ne_nil]
  refine ⟨h.ne_nil, fun c hc hstarts => ?_, h.initial, fun w hw hinitial => ?_⟩
  · rw [← List.append_assoc] at hstarts
    have hinitial : Initial (encodePoint c) := ⟨c, hc, List.prefix_rfl⟩
    exact h.unspelled c hc (hinitial.prefix_of_fresh hstarts hne hu)
  · rw [← List.append_assoc] at hw
    exact h.longest w (hinitial.prefix_of_fresh hw hne hu) hinitial

/-- What starts afresh is read as if nothing stood in front of it. -/
theorem Replaces.append (ha : Replaces a t) (hs : Replaces s r) (hfresh : Fresh s) :
    Replaces (a ++ s) (t ++ r) := by
  induction ha with
  | nil => exact hs
  | spelled hc _ ih =>
    rw [List.append_assoc]
    exact .spelled hc ih
  | damaged hm _ ih =>
    rw [List.append_assoc]
    exact .damaged (hm.append hfresh) ih

theorem Replaces.encode_append (ht : ∀ c ∈ t, ¬ c.isSurrogate) (hs : Replaces s r) :
    Replaces (encode t ++ s) (t ++ r) := by
  induction t with
  | nil => exact hs
  | cons c t ih =>
    obtain ⟨hc, hmore⟩ := List.forall_mem_cons.1 ht
    rw [encode, List.flatMap_cons, List.append_assoc]
    exact .spelled hc (ih hmore)

theorem Replaces.not_isSurrogate (h : Replaces s t) : ∀ c ∈ t, ¬ c.isSurrogate := by
  induction h with
  | nil => exact List.forall_mem_nil _
  | spelled hc _ ih => exact List.forall_mem_cons.2 ⟨hc, ih⟩
  | damaged _ _ ih => exact List.forall_mem_cons.2 ⟨by decide, ih⟩

theorem Damaged.length_le (hm : Damaged m s) (hv : Damaged v u) (h : m ++ s = v ++ u) :
    m.length ≤ v.length := by
  obtain hone | hinitial := hm.initial
  · exact hone ▸ List.length_pos_iff.2 hv.ne_nil
  · exact hv.longest m (h ▸ List.prefix_append m s) hinitial

/-- Only one piece can be replaced. -/
theorem Damaged.unique (hm : Damaged m s) (hv : Damaged v u) (h : m ++ s = v ++ u) :
    m = v ∧ s = u :=
  List.append_inj h (Nat.le_antisymm (hm.length_le hv h) (hv.length_le hm h.symm))

/-- Bytes are read in one way only. -/
theorem Replaces.unique (h : Replaces s t) (h' : Replaces s r) : t = r := by
  induction h generalizing r with
  | nil =>
    generalize hw : ([] : Bytes) = w at h'
    cases h' with
    | nil => rfl
    | @spelled c => exact absurd (List.append_eq_nil_iff.1 hw.symm).1 (encodePoint_ne_nil c)
    | damaged hm => exact absurd (List.append_eq_nil_iff.1 hw.symm).1 hm.ne_nil
  | @spelled c s t hc _ ih =>
    generalize hw : encodePoint c ++ s = w at h'
    cases h' with
    | nil => exact absurd (List.append_eq_nil_iff.1 hw).1 (encodePoint_ne_nil c)
    | spelled _ more =>
      obtain ⟨rfl, rfl⟩ := encodePoint_append_inj hw
      rw [ih more]
    | damaged hm => exact absurd (hw ▸ List.prefix_append _ s) (hm.unspelled c hc)
  | @damaged m s t hm _ ih =>
    generalize hw : m ++ s = w at h'
    cases h' with
    | nil => exact absurd (List.append_eq_nil_iff.1 hw).1 hm.ne_nil
    | @spelled c _ _ hc => exact absurd (hw ▸ List.prefix_append _ _) (hm.unspelled c hc)
    | damaged hv more =>
      obtain ⟨rfl, rfl⟩ := hm.unique hv hw
      rw [ih more]

end Reading

end LenSyntax.Utf8

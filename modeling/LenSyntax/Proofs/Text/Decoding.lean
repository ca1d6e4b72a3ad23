import LenSyntax.Proofs.Text.Replacing

/-! The decoder replaces what is damaged. Inside a sequence it knows which numbers the bytes read so
far may still spell: those whose spelling starts with these bytes, and no others. So it finds out
that a spelling is broken off where no spelling goes on. -/
namespace LenSyntax.Utf8

/-- The pieces of bytes in front of which a sequence is under way, or none. -/
def resume (p : Option Pending) (bytes : Bytes) : List (Option CodePoint) :=
  (bytes.foldl Decoder.push ⟨p, []⟩).finish

/-- What the pieces are read as. -/
def texts (pieces : List (Option CodePoint)) : Text := pieces.map (·.getD .replacement)

/-- The number that a byte goes on with. -/
def Pending.next (p : Pending) (b : UInt8) : Nat := 64 * p.value + b.toNat % 64

/-- Whether a byte may go on with a sequence. -/
def Pending.Admits (p : Pending) (b : UInt8) : Prop := p.low ≤ b.toNat ∧ b.toNat ≤ p.high

/-- Whether a number starts with what has been read and goes on with a byte within the bounds. -/
def Pending.Allows (p : Pending) (n : Nat) : Prop :=
  n / 64 ^ p.owed = p.value ∧ p.low ≤ 0x80 + n / 64 ^ (p.owed - 1) % 64 ∧
    0x80 + n / 64 ^ (p.owed - 1) % 64 ≤ p.high

/-- Bytes that have been read inside a sequence. The numbers that are allowed are those that they
may still spell. -/
structure Holds (s : Bytes) (p : Pending) : Prop where
  ne_nil : s ≠ []
  owed_pos : 0 < p.owed
  bounds : 0x80 ≤ p.low ∧ p.low ≤ p.high ∧ p.high < 0xC0
  spelled : ∀ n, p.Allows n →
    ∃ c : CodePoint, c.val = n ∧ ¬ c.isSurrogate ∧ encodePoint c = s ++ tail p.owed n
  allows : ∀ c : CodePoint, ¬ c.isSurrogate → s <+: encodePoint c → p.Allows c.val

section Decoder
variable {p : Pending} {b : UInt8} {c : CodePoint} {s : Bytes}

theorem pushLead_eq (read : List (Option CodePoint)) (n : Nat) :
    Decoder.pushLead read n =
      ⟨(Decoder.pushLead [] n).pending, (Decoder.pushLead [] n).read ++ read⟩ := by
  unfold Decoder.pushLead
  split <;> rfl

/-- What has been read before has no effect. -/
theorem push_eq (d : Decoder) (b : UInt8) :
    d.push b = ⟨((⟨d.pending, []⟩ : Decoder).push b).pending,
      ((⟨d.pending, []⟩ : Decoder).push b).read ++ d.read⟩ := by
  obtain ⟨pending, read⟩ := d
  cases pending with
  | none => exact pushLead_eq read b.toNat
  | some p =>
    simp only [Decoder.push]
    split
    · split <;> rfl
    · rw [pushLead_eq, pushLead_eq [none], List.append_assoc]
      rfl

theorem finish_foldl (d : Decoder) (s : Bytes) :
    (s.foldl Decoder.push d).finish = d.read.reverse ++ resume d.pending s := by
  induction s generalizing d with
  | nil =>
    simp only [resume, List.foldl_nil, Decoder.finish]
    split <;> simp
  | cons b s ih =>
    rw [resume, List.foldl_cons, List.foldl_cons, ih, ih (Decoder.push _ b), push_eq]
    simp

theorem resume_cons (p : Option Pending) (b : UInt8) (s : Bytes) :
    resume p (b :: s) = ((⟨p, []⟩ : Decoder).push b).read.reverse ++
      resume ((⟨p, []⟩ : Decoder).push b).pending s :=
  finish_foldl _ s

theorem resume_single (h : lead b.toNat = .single c) (s : Bytes) :
    resume none (b :: s) = some c :: resume none s := by
  rw [resume_cons]
  simp [Decoder.push, Decoder.pushLead, h]

theorem resume_opens (h : lead b.toNat = .opens p) (s : Bytes) :
    resume none (b :: s) = resume (some p) s := by
  rw [resume_cons]
  simp [Decoder.push, Decoder.pushLead, h]

theorem resume_stray (h : lead b.toNat = .stray) (s : Bytes) :
    resume none (b :: s) = none :: resume none s := by
  rw [resume_cons]
  simp [Decoder.push, Decoder.pushLead, h]

/-- The last byte of a sequence. -/
theorem resume_last (hb : p.Admits b) (howed : p.owed ≤ 1) (s : Bytes) :
    resume (some p) (b :: s) = some (.ofNat (p.next b)) :: resume none s := by
  rw [resume_cons]
  rw [Pending.Admits] at hb
  simp [Decoder.push, hb, howed, Pending.next]

theorem resume_inner (hb : p.Admits b) (howed : ¬ p.owed ≤ 1) (s : Bytes) :
    resume (some p) (b :: s) = resume (some ⟨p.owed - 1, 0x80, 0xBF, p.next b⟩) s := by
  rw [resume_cons]
  rw [Pending.Admits] at hb
  simp only [Decoder.push, if_pos hb, if_neg howed]
  rfl

/-- A byte that ends a sequence is read as if nothing stood in front of it. -/
theorem resume_broken (hb : ¬ p.Admits b) (s : Bytes) :
    resume (some p) (b :: s) = none :: resume none (b :: s) := by
  rw [resume_cons, resume_cons]
  rw [Pending.Admits] at hb
  simp only [Decoder.push, if_neg hb]
  rw [pushLead_eq]
  simp

end Decoder

/-! ### Inside a sequence -/

namespace Holds
variable {p : Pending} {b : UInt8} {s u w : Bytes} {c : CodePoint}

theorem allows_of_next (h : Holds s p) (hb : p.Admits b) {n : Nat}
    (hn : n / 64 ^ (p.owed - 1) = p.next b) :
    p.Allows n ∧ tail p.owed n = b :: tail (p.owed - 1) n := by
  obtain ⟨-, howed, hbounds, -, -⟩ := h
  obtain ⟨_ | count, low, high, value⟩ := p
  · cases howed
  · simp only [Pending.Admits, Pending.Allows, Pending.next, Nat.add_sub_cancel] at hb hbounds hn ⊢
    have hdiv : n / 64 ^ (count + 1) = n / 64 ^ count / 64 := by
      rw [Nat.pow_succ, Nat.div_div_eq_div_mul]
    refine ⟨⟨by omega, by omega, by omega⟩, ?_⟩
    rw [tail, List.cons_eq_cons]
    refine ⟨UInt8.toNat_inj.1 ?_, rfl⟩
    rw [UInt8.toNat_ofNat']
    omega

/-- A spelling that starts with what has been read ends with the digits of its number. -/
theorem encodePoint_eq (h : Holds s p) (hc : ¬ c.isSurrogate) (hstarts : s <+: encodePoint c) :
    encodePoint c = s ++ tail p.owed c.val := by
  obtain ⟨d, hd, -, hspelled⟩ := h.spelled _ (h.allows c hc hstarts)
  rwa [CodePoint.ext hd] at hspelled

/-- The next byte of a spelling is within the bounds, and tells what is read next. -/
theorem of_isPrefix (h : Holds s p) (hc : ¬ c.isSurrogate) (hstarts : s ++ [b] <+: encodePoint c) :
    p.Admits b ∧ c.val / 64 ^ (p.owed - 1) = p.next b := by
  have hs : s <+: encodePoint c := (List.prefix_append s [b]).trans hstarts
  have hallows := h.allows c hc hs
  rw [h.encodePoint_eq hc hs, List.prefix_append_right_inj] at hstarts
  obtain ⟨-, howed, -, -, -⟩ := h
  obtain ⟨_ | count, low, high, value⟩ := p
  · cases howed
  · rw [tail, List.cons_prefix_cons] at hstarts
    simp only [Pending.Admits, Pending.Allows, Pending.next, Nat.add_sub_cancel] at hallows ⊢
    rw [Nat.pow_succ, ← Nat.div_div_eq_div_mul] at hallows
    rw [hstarts.1, UInt8.toNat_ofNat']
    omega

/-- Some number is allowed, and what has been read is not yet its spelling. -/
theorem exists_spelled (h : Holds s p) : ∃ c : CodePoint, ¬ c.isSurrogate ∧
    s <+: encodePoint c ∧ s.length < (encodePoint c).length := by
  obtain ⟨n, hn⟩ : ∃ n, p.Allows n := by
    refine ⟨(64 * p.value + (p.low - 0x80)) * 64 ^ (p.owed - 1), ?_⟩
    obtain ⟨-, howed, hbounds, -, -⟩ := h
    obtain ⟨_ | count, low, high, value⟩ := p
    · cases howed
    · simp only [Pending.Allows, Nat.add_sub_cancel] at hbounds ⊢
      rw [Nat.pow_succ, ← Nat.div_div_eq_div_mul, Nat.mul_div_cancel _ (Nat.pow_pos (by decide))]
      omega
  obtain ⟨c, -, hc, hspelled⟩ := h.spelled n hn
  refine ⟨c, hc, hspelled ▸ List.prefix_append _ _, ?_⟩
  rw [hspelled, List.length_append, tail_length]
  exact Nat.lt_add_of_pos_right h.owed_pos

theorem last (h : Holds s p) (hb : p.Admits b) (howed : p.owed ≤ 1) :
    ¬ (CodePoint.ofNat (p.next b)).isSurrogate ∧
      encodePoint (CodePoint.ofNat (p.next b)) = s ++ [b] := by
  have hone : p.owed = 1 := Nat.le_antisymm howed h.owed_pos
  obtain ⟨hallows, htail⟩ := h.allows_of_next hb (n := p.next b) (by rw [hone]; exact Nat.div_one _)
  obtain ⟨c, hval, hc, hspelled⟩ := h.spelled _ hallows
  rw [← hval, CodePoint.ofNat_val, hspelled, htail, hone]
  exact ⟨hc, rfl⟩

theorem inner (h : Holds s p) (hb : p.Admits b) (howed : ¬ p.owed ≤ 1) :
    Holds (s ++ [b]) ⟨p.owed - 1, 0x80, 0xBF, p.next b⟩ where
  ne_nil := by simp
  owed_pos := Nat.sub_pos_of_lt (Nat.lt_of_not_le howed)
  bounds := ⟨Nat.le_refl 0x80, (by decide : 0x80 ≤ 0xBF), (by decide : 0xBF < 0xC0)⟩
  spelled n hn := by
    obtain ⟨hallows, htail⟩ := h.allows_of_next hb hn.1
    obtain ⟨c, hval, hc, hspelled⟩ := h.spelled n hallows
    refine ⟨c, hval, hc, ?_⟩
    rw [hspelled, htail, List.append_assoc]
    rfl
  allows c hc hstarts := by
    refine ⟨(h.of_isPrefix hc hstarts).2, ?_⟩
    simp only
    omega

/-- What has been read is the longest start of a spelling, if no byte within the bounds comes
behind it. -/
theorem length_le (h : Holds s p) (hu : ∀ b ∈ u.head?, ¬ p.Admits b)
    (hc : ¬ c.isSurrogate) (hwc : w <+: encodePoint c) (hw : w <+: s ++ u) :
    w.length ≤ s.length := by
  refine Nat.not_lt.1 fun hlt => ?_
  obtain ⟨x, rfl⟩ : s <+: w :=
    List.prefix_of_prefix_length_le (List.prefix_append s u) hw (Nat.le_of_lt hlt)
  cases x with
  | nil => exact Nat.lt_irrefl _ (List.append_nil s ▸ hlt)
  | cons b x =>
    have hnext : s ++ [b] <+: encodePoint c :=
      ((List.prefix_append_right_inj s).2 ⟨x, rfl⟩).trans hwc
    obtain ⟨y, rfl⟩ : b :: x <+: u := (List.prefix_append_right_inj s).1 hw
    exact hu b rfl (h.of_isPrefix hc hnext).1

/-- A sequence is damaged that does not go on with a byte within the bounds. -/
theorem damaged (h : Holds s p) (hu : ∀ b ∈ u.head?, ¬ p.Admits b) :
    Damaged s u := by
  obtain ⟨d, hd, hstarts, hlt⟩ := h.exists_spelled
  refine ⟨h.ne_nil, fun c hc hspelled => ?_, .inr ⟨d, hd, hstarts⟩, fun w hw hinitial => ?_⟩
  · -- what has been read would be a spelling with another one behind it
    have hle := h.length_le hu hc List.prefix_rfl hspelled
    obtain ⟨x, hx⟩ :=
      (List.prefix_of_prefix_length_le hspelled (List.prefix_append s u) hle).trans hstarts
    obtain ⟨rfl, -⟩ := encodePoint_append_inj (hx.trans (List.append_nil _).symm)
    omega
  · obtain ⟨c, hc, hwc⟩ := hinitial
    exact h.length_le hu hc hwc hw

end Holds

/-! ### Outside of a sequence -/

/-- What a first byte means. Behind some of those that start a sequence the bounds leave out overlong
forms, surrogates or numbers that are too large. -/
def Lead.Suits (b : Nat) : Lead → Prop
  | single c => b < 0x80 ∧ c = .ofNat b
  | stray => 0x80 ≤ b ∧ b < 0xC2 ∨ 0xF4 < b
  | opens p =>
    (0xC2 ≤ b ∧ b < 0xE0) ∧ p = ⟨1, 0x80, 0xBF, b % 0x20⟩ ∨
      b = 0xE0 ∧ p = ⟨2, 0xA0, 0xBF, 0⟩ ∨
      b = 0xED ∧ p = ⟨2, 0x80, 0x9F, 0xD⟩ ∨
      ((0xE0 < b ∧ b < 0xF0) ∧ b ≠ 0xED) ∧ p = ⟨2, 0x80, 0xBF, b % 0x10⟩ ∨
      b = 0xF0 ∧ p = ⟨3, 0x90, 0xBF, 0⟩ ∨
      (0xF0 < b ∧ b < 0xF4) ∧ p = ⟨3, 0x80, 0xBF, b % 0x08⟩ ∨
      b = 0xF4 ∧ p = ⟨3, 0x80, 0x8F, 4⟩

theorem suits_lead (b : Nat) : (lead b).Suits b := by
  unfold lead
  split
  · next h => exact ⟨h, rfl⟩
  split
  · next h => exact .inl ⟨by omega, h⟩
  split
  · exact .inl ⟨by omega, rfl⟩
  split
  · next h => exact .inr (.inl ⟨h, rfl⟩)
  split
  · next h => exact .inr (.inr (.inl ⟨h, rfl⟩))
  split
  · exact .inr (.inr (.inr (.inl ⟨by omega, rfl⟩)))
  split
  · next h => exact .inr (.inr (.inr (.inr (.inl ⟨h, rfl⟩))))
  split
  · exact .inr (.inr (.inr (.inr (.inr (.inl ⟨by omega, rfl⟩)))))
  split
  · next h => exact .inr (.inr (.inr (.inr (.inr (.inr ⟨h, rfl⟩)))))
  · exact .inr (by omega)

theorem suits_of_lead {l : Lead} {b : Nat} (h : lead b = l) : l.Suits b := h ▸ suits_lead b

theorem bounds_of_lead {p : Pending} {b : Nat} (h : lead b = .opens p) :
    0 < p.owed ∧ 0x80 ≤ p.low ∧ p.low ≤ p.high ∧ p.high < 0xC0 := by
  obtain ⟨_, rfl⟩ | ⟨_, rfl⟩ | ⟨_, rfl⟩ | ⟨_, rfl⟩ | ⟨_, rfl⟩ | ⟨_, rfl⟩ | ⟨_, rfl⟩ :=
    suits_of_lead h
  all_goals simp

/-- The numbers that are allowed behind a first byte are those whose spellings start with it, and
these are as long as it tells. -/
theorem allows_iff_of_lead {p : Pending} {b : Nat} (h : lead b = .opens p) (n : Nat) :
    (p.Allows n ↔ (n < 0xD800 ∨ 0xDFFF < n ∧ n < 0x110000) ∧ opening n = b) ∧
      (p.Allows n → owed n = p.owed) := by
  have hcases := opening_cases n
  obtain ⟨hb, rfl⟩ | ⟨hb, rfl⟩ | ⟨hb, rfl⟩ | ⟨hb, rfl⟩ | ⟨hb, rfl⟩ | ⟨hb, rfl⟩ | ⟨hb, rfl⟩ :=
    suits_of_lead h
  all_goals
    simp only [Pending.Allows, Nat.reduceSub, Nat.reducePow] at hcases ⊢
    omega

theorem not_isSurrogate_iff {c : CodePoint} :
    ¬ c.isSurrogate ↔ c.val < 0xD800 ∨ 0xDFFF < c.val ∧ c.val < 0x110000 := by
  have h := c.isLt
  simp only [CodePoint.isSurrogate, Bool.and_eq_true, decide_eq_true_eq]
  omega

theorem holds_of_lead {p : Pending} {b : UInt8} (h : lead b.toNat = .opens p) : Holds [b] p where
  ne_nil := List.cons_ne_nil _ _
  owed_pos := (bounds_of_lead h).1
  bounds := (bounds_of_lead h).2
  spelled n hn := by
    obtain ⟨hiff, howed⟩ := allows_iff_of_lead h n
    obtain ⟨hvalid, hopening⟩ := hiff.1 hn
    refine ⟨⟨n, by omega⟩, rfl, not_isSurrogate_iff.2 hvalid, ?_⟩
    rw [encodePoint_eq, hopening, howed hn, UInt8.ofNat_toNat]
    rfl
  allows c hc hstarts := by
    rw [encodePoint_eq, List.cons_prefix_cons] at hstarts
    refine (allows_iff_of_lead h c.val).1.2 ⟨not_isSurrogate_iff.1 hc, ?_⟩
    rw [hstarts.1, toNat_opening]

theorem encodePoint_of_lead {b : UInt8} {c : CodePoint} (h : lead b.toNat = .single c) :
    ¬ c.isSurrogate ∧ encodePoint c = [b] := by
  obtain ⟨hlt, rfl⟩ := suits_of_lead h
  have hval : (CodePoint.ofNat b.toNat).val = b.toNat := CodePoint.val_ofNat (by omega)
  refine ⟨not_isSurrogate_iff.2 (by omega), ?_⟩
  rw [encodePoint, hval, if_pos hlt, UInt8.ofNat_toNat]

/-- No spelling starts with a byte that starts no sequence. -/
theorem opening_ne_of_lead {b : Nat} (h : lead b = .stray) (c : CodePoint) : opening c.val ≠ b := by
  have hstray : 0x80 ≤ b ∧ b < 0xC2 ∨ 0xF4 < b := suits_of_lead h
  have hcases := opening_cases c.val
  have hlt := c.isLt
  omega

theorem damaged_of_lead {b : UInt8} (h : lead b.toNat = .stray) (s : Bytes) : Damaged [b] s := by
  have hopening (c : CodePoint) : UInt8.ofNat (opening c.val) ≠ b := by
    rintro rfl
    exact opening_ne_of_lead h c (toNat_opening c).symm
  refine ⟨List.cons_ne_nil _ _, fun c _ hstarts => ?_, .inl rfl, fun w hw hinitial => ?_⟩
  · rw [encodePoint_eq, List.singleton_append, List.cons_prefix_cons] at hstarts
    exact hopening c hstarts.1
  · obtain ⟨c, -, hstarts⟩ := hinitial
    cases w with
    | nil => exact Nat.zero_le _
    | cons x w =>
      rw [List.singleton_append, List.cons_prefix_cons] at hw
      rw [encodePoint_eq, List.cons_prefix_cons] at hstarts
      exact absurd (hstarts.1.symm.trans hw.1) (hopening c)

/-! ### Whole inputs -/

theorem Holds.replaces_resume {p : Pending} {s u : Bytes} (h : Holds s p)
    (hread : ∀ v, v.length < (s ++ u).length → Replaces v (texts (resume none v))) :
    Replaces (s ++ u) (texts (resume (some p) u)) := by
  induction u generalizing s p with
  | nil => exact .damaged (h.damaged (by simp)) .nil
  | cons b u ih =>
    by_cases hb : p.Admits b
    · by_cases howed : p.owed ≤ 1
      · obtain ⟨hc, hspelled⟩ := h.last hb howed
        rw [resume_last hb howed, List.append_cons, ← hspelled]
        have hlt : u.length < (s ++ b :: u).length := by
          rw [List.length_append, List.length_cons]
          omega
        exact .spelled hc (hread u hlt)
      · rw [resume_inner hb howed, List.append_cons]
        exact ih (h.inner hb howed) (by simpa using hread)
    · rw [resume_broken hb]
      have hlt : (b :: u).length < (s ++ b :: u).length := by
        simpa using List.length_pos_iff.2 h.ne_nil
      exact .damaged (h.damaged (by simpa using hb)) (hread _ hlt)

/-- What is read of bytes spells them, but for the damaged pieces. -/
theorem replaces_decode (s : Bytes) : Replaces s (decode s) := by
  change Replaces s (texts (resume none s))
  induction hlength : s.length using Nat.strongRecOn generalizing s with
  | ind n ih =>
    subst hlength
    have hread (v : Bytes) (hv : v.length < s.length) := ih v.length hv v rfl
    cases s with
    | nil => exact .nil
    | cons b s =>
      have hmore := hread s (Nat.lt_succ_self _)
      cases hlead : lead b.toNat with
      | single c =>
        obtain ⟨hc, hspelled⟩ := encodePoint_of_lead hlead
        rw [resume_single hlead, ← List.singleton_append, ← hspelled]
        exact .spelled hc hmore
      | opens p =>
        rw [resume_opens hlead]
        exact (holds_of_lead hlead).replaces_resume hread
      | stray =>
        rw [resume_stray hlead, ← List.singleton_append]
        exact .damaged (damaged_of_lead hlead s) hmore

theorem decode_eq_iff {s : Bytes} {t : Text} : decode s = t ↔ Replaces s t :=
  ⟨fun h => h ▸ replaces_decode s, fun h => (replaces_decode s).unique h⟩

/-- Damaged bytes do not reach what is spelled beside them. -/
theorem decode_append_encode_append {t : Text} (ht : ∀ c ∈ t, ¬ c.isSurrogate) (hne : t ≠ [])
    (a b : Bytes) : decode (a ++ encode t ++ b) = decode a ++ t ++ decode b := by
  have hfresh : Fresh (encode t ++ b) := by
    cases t with
    | nil => exact absurd rfl hne
    | cons c t =>
      rw [encode, List.flatMap_cons, List.append_assoc]
      exact fresh_encodePoint c _
  rw [decode_eq_iff, List.append_assoc, List.append_assoc]
  exact (replaces_decode a).append (.encode_append ht (replaces_decode b)) hfresh

/-- What has been read of bytes is read again if it is written. -/
theorem decode_encode_decode (s : Bytes) : decode (encode (decode s)) = decode s := by
  have h := Replaces.encode_append (replaces_decode s).not_isSurrogate .nil
  rw [List.append_nil, List.append_nil] at h
  exact decode_eq_iff.2 h

end LenSyntax.Utf8

import LenSyntax.Proofs.Lexeme.Number
import Mathlib.Computability.Language

/-! Numeric literals as they are meant. The numerals are a language; of those at the start of a text
the longest one counts, and so does what spills over behind it. -/
namespace LenSyntax.Number

section Longest
variable {l m : Language CodePoint} {t v w : Text}

/-- The longest word of a language at the start of a text. -/
structure Longest (l : Language CodePoint) (t w : Text) : Prop where
  mem : w ∈ l
  starts : w <+: t
  length_le : ∀ v ∈ l, v <+: t → v.length ≤ w.length

/-- Longest words stand one behind the other if no word but the empty one of the second language
stands behind a shorter word of the first. -/
theorem Longest.mul (hw : Longest l (w ++ t) w) (hv : Longest m t v)
    (hshort : ∀ x d y, w = x ++ d :: y → ∀ z ∈ m, z <+: d :: (y ++ t) → z = []) :
    Longest (l * m) (w ++ t) (w ++ v) where
  mem := Language.append_mem_mul hw.mem hv.mem
  starts := (List.prefix_append_right_inj w).2 hv.starts
  length_le u hu hstarts := by
    obtain ⟨x, hx, z, hz, rfl⟩ := Language.mem_mul.1 hu
    obtain ⟨behind, hbehind⟩ := hstarts
    rw [List.append_assoc] at hbehind
    have hle := hw.length_le x hx ⟨z ++ behind, hbehind⟩
    obtain ⟨y, rfl⟩ := List.prefix_of_prefix_length_le ⟨z ++ behind, hbehind⟩
      (List.prefix_append w t) hle
    rw [List.append_assoc, List.append_cancel_left_eq] at hbehind
    cases y with
    | nil =>
      have hzv := hv.length_le z hz ⟨behind, hbehind⟩
      simpa using hzv
    | cons d y =>
      obtain rfl := hshort x d y rfl z hz ⟨behind, hbehind⟩
      simp only [List.append_nil, List.length_append]
      omega

end Longest

section Languages

/-- At least one digit. -/
def digits : Language CodePoint := {w | w ≠ [] ∧ ∀ c ∈ w, c.isDigit}

/-- One code point of a text. -/
def oneOf (cs : Text) : Language CodePoint := {w | ∃ c ∈ cs, w = [c]}

/-- Nothing, or a point and digits. -/
def fractions : Language CodePoint := 1 + oneOf "." * digits

def signs : Language CodePoint := 1 + oneOf "+-"

/-- Nothing, or a letter, a sign or none, and digits. -/
def exponents : Language CodePoint := 1 + oneOf "eE" * (signs * digits)

/-- Digits, with a fraction and an exponent or without. -/
def numerals : Language CodePoint := digits * (fractions * exponents)

variable {c d : CodePoint} {s t ds f e w whole z : Text}

theorem mem_oneOf {cs : Text} : w ∈ oneOf cs ↔ ∃ c ∈ cs, w = [c] := Iff.rfl

theorem mem_fractions :
    w ∈ fractions ↔ w = [] ∨ ∃ ds ∈ digits, w = CodePoint.ofChar '.' :: ds := by
  simp only [fractions, Language.mem_add, Language.mem_one, Language.mem_mul, mem_oneOf]
  refine or_congr_right ⟨?_, ?_⟩
  · rintro ⟨_, ⟨c, hc, rfl⟩, ds, hds, rfl⟩
    obtain rfl : c = CodePoint.ofChar '.' := by simpa [Text.ofString] using hc
    exact ⟨ds, hds, rfl⟩
  · rintro ⟨ds, hds, rfl⟩
    exact ⟨_, ⟨_, by simp [Text.ofString], rfl⟩, ds, hds, rfl⟩

theorem mem_signs :
    w ∈ signs ↔ w = [] ∨ ∃ c, (c = CodePoint.ofChar '+' ∨ c = CodePoint.ofChar '-') ∧ w = [c] := by
  simp [signs, Language.mem_add, Language.mem_one, mem_oneOf, Text.ofString]

theorem mem_exponents :
    w ∈ exponents ↔ w = [] ∨ ∃ c, (c = CodePoint.ofChar 'e' ∨ c = CodePoint.ofChar 'E') ∧
      ∃ s ∈ signs, ∃ ds ∈ digits, w = c :: (s ++ ds) := by
  simp only [exponents, Language.mem_add, Language.mem_one, Language.mem_mul, mem_oneOf]
  refine or_congr_right ⟨?_, ?_⟩
  · rintro ⟨_, ⟨c, hc, rfl⟩, _, ⟨s, hs, ds, hds, rfl⟩, rfl⟩
    exact ⟨c, by simpa [Text.ofString] using hc, s, hs, ds, hds, rfl⟩
  · rintro ⟨c, hc, s, hs, ds, hds, rfl⟩
    exact ⟨[c], ⟨c, by simpa [Text.ofString] using hc, rfl⟩, s ++ ds, ⟨s, hs, ds, hds, rfl⟩, rfl⟩

/-- A run of digits goes on to the first code point that is none. -/
theorem prefix_run (ht : t.EndsRun CodePoint.isDigit) (hz : ∀ d ∈ z, d.isDigit)
    (h : z <+: w ++ t) : z <+: w := by
  obtain ⟨behind, hbehind⟩ := h
  obtain ⟨y, rfl, -⟩ | ⟨y, rfl, hrest⟩ := List.append_eq_append_iff.1 hbehind
  · exact List.prefix_append z y
  · cases y with
    | nil => simp
    | cons d y =>
      have hd := ht d (by rw [hrest]; rfl)
      rw [hz d (by simp)] at hd
      cases hd

theorem longest_digits (hw : w ∈ digits) (ht : t.EndsRun CodePoint.isDigit) :
    Longest digits (w ++ t) w :=
  ⟨hw, List.prefix_append w t, fun _ hv h => (prefix_run ht hv.2 h).length_le⟩

theorem longest_fractions (hds : ds ∈ digits) (ht : t.EndsRun CodePoint.isDigit) :
    Longest fractions (CodePoint.ofChar '.' :: ds ++ t) (CodePoint.ofChar '.' :: ds) where
  mem := mem_fractions.2 (.inr ⟨ds, hds, rfl⟩)
  starts := List.prefix_append _ t
  length_le v hv h := by
    obtain rfl | ⟨es, hes, rfl⟩ := mem_fractions.1 hv
    · exact Nat.zero_le _
    · have hle := (prefix_run ht hes.2 (List.cons_prefix_cons.1 h).2).length_le
      simpa using hle

/-- The empty word is the longest one where no other word starts. -/
theorem longest_nil {l : Language CodePoint} (hl : [] ∈ l) (h : ∀ v ∈ l, v <+: t → v = []) :
    Longest l t [] :=
  ⟨hl, List.nil_prefix, fun v hv hstarts => by rw [h v hv hstarts]⟩

theorem longest_fractions_nil
    (ht : ∀ u : Text, t = CodePoint.ofChar '.' :: u → u.EndsRun CodePoint.isDigit) :
    Longest fractions t [] := by
  refine longest_nil (mem_fractions.2 (.inl rfl)) fun v hv h => ?_
  obtain rfl | ⟨ds, hds, rfl⟩ := mem_fractions.1 hv
  · rfl
  · obtain ⟨u, rfl⟩ := h
    obtain ⟨d, ds, rfl⟩ := List.exists_cons_of_ne_nil hds.1
    have hd := ht (d :: ds ++ u) rfl d rfl
    rw [hds.2 d List.mem_cons_self] at hd
    cases hd

/-- The sign and the digits of an exponent are those that are read. -/
theorem sign_append_digits (hs : s ∈ signs) (hds : ds ∈ digits) (t : Text) :
    sign (s ++ (ds ++ t)) = (s, ds ++ t) := by
  obtain rfl | ⟨c, hc, rfl⟩ := mem_signs.1 hs
  · obtain ⟨d, ds, rfl⟩ := List.exists_cons_of_ne_nil hds.1
    have hdigit := hds.2 d List.mem_cons_self
    have hsign : ¬ (d = CodePoint.ofChar '+' ∨ d = CodePoint.ofChar '-') := by
      rintro (rfl | rfl) <;> exact absurd hdigit (by decide)
    rw [List.nil_append, List.cons_append, sign, if_neg hsign]
  · rw [List.singleton_append, sign, if_pos hc]

theorem sign_mem_signs (t : Text) : (sign t).1 ∈ signs := by
  cases t with
  | nil => exact mem_signs.2 (.inl rfl)
  | cons c t =>
    rw [sign]
    split
    · next hc => exact mem_signs.2 (.inr ⟨c, hc, rfl⟩)
    · exact mem_signs.2 (.inl rfl)

/-- An exponent that starts where one is read has its letter and sign, and digits of it. -/
theorem ExponentParts.starts (h : ExponentParts t c s ds) (hz : z ∈ exponents)
    (hstarts : z <+: c :: (s ++ (ds ++ t))) :
    z = [] ∨ ∃ es, es ≠ [] ∧ es <+: ds ∧ z = c :: (s ++ es) := by
  obtain rfl | ⟨_, -, r, hr, es, hes, rfl⟩ := mem_exponents.1 hz
  · exact .inl rfl
  · obtain ⟨rfl, u, hu⟩ := List.cons_prefix_cons.1 hstarts
    rw [List.append_assoc] at hu
    have hsign := sign_append_digits hr hes u
    rw [hu, h.sign, Prod.mk.injEq] at hsign
    obtain ⟨rfl, hrest⟩ := hsign
    have hend := (Text.splitWhile_append_eq_iff.1 h.digits).2
    exact .inr ⟨es, hes.1, prefix_run hend hes.2 ⟨u, hrest.symm⟩, rfl⟩

theorem ExponentParts.longest (h : ExponentParts t c s ds) (hds : ds ≠ []) :
    Longest exponents (c :: (s ++ (ds ++ t))) (c :: (s ++ ds)) where
  mem := by
    have hs := sign_mem_signs (s ++ (ds ++ t))
    rw [h.sign] at hs
    have hall := (Text.splitWhile_append_eq_iff.1 h.digits).1
    exact mem_exponents.2 (.inr ⟨c, h.letter, s, hs, ds, ⟨hds, hall⟩, rfl⟩)
  starts := ⟨t, by simp⟩
  length_le v hv hstarts := by
    obtain rfl | ⟨es, -, hes, rfl⟩ := h.starts hv hstarts
    · exact Nat.zero_le _
    · have hle := hes.length_le
      simpa using hle

theorem ExponentParts.longest_nil (h : ExponentParts t c s []) :
    Longest exponents (c :: (s ++ t)) [] := by
  refine Number.longest_nil (mem_exponents.2 (.inl rfl)) fun v hv hstarts => ?_
  obtain rfl | ⟨es, hne, hes, rfl⟩ := h.starts hv hstarts
  · rfl
  · exact absurd (List.prefix_nil.1 hes) hne

theorem NoExponent.longest (h : NoExponent t) : Longest exponents t [] := by
  refine longest_nil (mem_exponents.2 (.inl rfl)) fun v hv hstarts => ?_
  obtain rfl | ⟨c, hc, s, hs, es, hes, rfl⟩ := mem_exponents.1 hv
  · rfl
  · obtain ⟨u, rfl⟩ := hstarts
    obtain ⟨d, hd, hword, hdigit⟩ := h c (s ++ es ++ u) rfl hc
    obtain rfl | ⟨x, hx, rfl⟩ := mem_signs.1 hs
    · obtain ⟨e, es, rfl⟩ := List.exists_cons_of_ne_nil hes.1
      obtain rfl := Option.some.inj hd
      exact absurd (hes.2 e List.mem_cons_self) hdigit
    · obtain rfl := Option.some.inj hd
      obtain rfl | rfl := hx <;> exact absurd hword (by decide)

theorem mem_of_mem_fractions (hf : f ∈ fractions) (hd : d ∈ f) :
    d = CodePoint.ofChar '.' ∨ d.isDigit := by
  obtain rfl | ⟨ds, hds, rfl⟩ := mem_fractions.1 hf
  · cases hd
  · exact (List.mem_cons.1 hd).imp_right (hds.2 d)

theorem eq_of_cons_mem_exponents (h : d :: z ∈ exponents) :
    d = CodePoint.ofChar 'e' ∨ d = CodePoint.ofChar 'E' := by
  obtain hnil | ⟨c, hc, _, -, _, -, hcons⟩ := mem_exponents.1 h
  · cases hnil
  · rwa [(List.cons.inj hcons).1]

theorem isDigit_eq_false_of_cons_mem (h : d :: z ∈ fractions * exponents) : d.isDigit = false := by
  obtain ⟨f, hf, e, he, hz⟩ := Language.mem_mul.1 h
  obtain rfl | ⟨ds, -, rfl⟩ := mem_fractions.1 hf
  · rw [show e = d :: z from hz] at he
    obtain rfl | rfl := eq_of_cons_mem_exponents he <;> rfl
  · rw [← (List.cons.inj hz).1]
    rfl

/-- A numeral is longest when its parts are. -/
theorem longest_numerals (hwhole : Longest digits (whole ++ (f ++ t)) whole)
    (hf : Longest fractions (f ++ t) f) (he : Longest exponents t e) :
    Longest numerals (whole ++ (f ++ t)) (whole ++ (f ++ e)) := by
  refine hwhole.mul (hf.mul he ?_) ?_
  · rintro x d y rfl z hz hstarts
    cases z with
    | nil => rfl
    | cons c z =>
      obtain rfl := (List.cons_prefix_cons.1 hstarts).1
      obtain rfl | hdigit := mem_of_mem_fractions hf.mem (d := c) (by simp)
      · exact absurd (eq_of_cons_mem_exponents hz) (by decide)
      · obtain rfl | rfl := eq_of_cons_mem_exponents hz <;> cases hdigit
  · rintro x d y rfl z hz hstarts
    cases z with
    | nil => rfl
    | cons c z =>
      obtain rfl := (List.cons_prefix_cons.1 hstarts).1
      have hdigit := hwhole.mem.2 c (by simp)
      rw [isDigit_eq_false_of_cons_mem hz] at hdigit
      cases hdigit

end Languages

section Spill
variable {c : CodePoint} {r s t ds rest : Text}

/-- What stands behind a numeral and belongs to the literal all the same: a point and a word behind
digits alone, the letter of an exponent with a sign and a word where the numeral has no exponent,
and a word otherwise. -/
def spill (r : Text) : Text → Text
  | [] => []
  | c :: t =>
    if c = '.' ∧ r.all CodePoint.isDigit then c :: t.takeWhile CodePoint.continuesWord
    else if (c = 'e' ∨ c = 'E') ∧ CodePoint.ofChar 'e' ∉ r ∧ CodePoint.ofChar 'E' ∉ r then
      c :: ((sign t).1 ++ (sign t).2.takeWhile CodePoint.continuesWord)
    else (c :: t).takeWhile CodePoint.continuesWord

/-- A numeral ends in front of what does not go on with it as a word, nor with a point behind digits
alone. -/
structure Ends (r t : Text) : Prop where
  word : t.EndsRun CodePoint.continuesWord
  point : ¬ (t.head? = some (CodePoint.ofChar '.') ∧ r.all CodePoint.isDigit)

theorem ends_iff : Ends r t ↔ t.EndsRun CodePoint.continuesWord ∧
    ¬ (t.head? = some (CodePoint.ofChar '.') ∧ r.all CodePoint.isDigit) :=
  ⟨fun h => ⟨h.word, h.point⟩, fun h => ⟨h.1, h.2⟩⟩

theorem spill_eq_nil_iff : spill r t = [] ↔ Ends r t := by
  rw [ends_iff]
  cases t with
  | nil => simp [spill, Text.EndsRun]
  | cons c t =>
    simp only [spill, List.head?_cons, Option.some.injEq]
    split
    · next h => simp [h]
    · next h =>
      simp only [h, not_false_eq_true, and_true]
      split
      · next hletter =>
        have hword : c.continuesWord := by obtain rfl | rfl := hletter.1 <;> decide
        simp [Text.EndsRun, hword]
      · simp [Text.EndsRun]

/-- Behind a numeral with an exponent only a word spills over. -/
theorem spill_of_letter (hr : CodePoint.ofChar 'e' ∈ r ∨ CodePoint.ofChar 'E' ∈ r) (t : Text) :
    spill r t = t.takeWhile CodePoint.continuesWord := by
  have hdigits : ¬ r.all CodePoint.isDigit := by
    rw [List.all_eq_true]
    intro hall
    obtain hmem | hmem := hr <;> exact absurd (hall _ hmem) (by decide)
  cases t with
  | nil => rfl
  | cons c t =>
    rw [spill, if_neg fun h => hdigits h.2, if_neg fun h => hr.elim h.2.1 h.2.2]

/-- A letter that is no exponent is part of a word. -/
theorem spill_of_noExponent (ht : NoExponent t)
    (hpoint : ¬ (t.head? = some (CodePoint.ofChar '.') ∧ r.all CodePoint.isDigit)) :
    spill r t = t.takeWhile CodePoint.continuesWord := by
  cases t with
  | nil => rfl
  | cons c t =>
    rw [spill, if_neg (by simpa using hpoint)]
    split
    · next h =>
      obtain ⟨d, hd, hword, -⟩ := ht c t rfl h.1
      obtain ⟨t, rfl⟩ := List.head?_eq_some_iff.1 hd
      have hsign : ¬ (d = CodePoint.ofChar '+' ∨ d = CodePoint.ofChar '-') := by
        rintro (rfl | rfl) <;> exact absurd hword (by decide)
      have hc : c.continuesWord := by obtain rfl | rfl := h.1 <;> decide
      rw [sign, if_neg hsign, List.nil_append, List.takeWhile_cons_of_pos hc]
    · rfl

theorem spill_of_exponentParts (h : ExponentParts t c s [])
    (hr : CodePoint.ofChar 'e' ∉ r ∧ CodePoint.ofChar 'E' ∉ r) :
    spill r (c :: (s ++ t)) = c :: (s ++ t.takeWhile CodePoint.continuesWord) := by
  have hc : c ≠ CodePoint.ofChar '.' := by obtain rfl | rfl := h.letter <;> decide
  have hsign : sign (s ++ t) = (s, t) := h.sign
  rw [spill, if_neg fun hpoint => hc hpoint.1, if_pos ⟨h.letter, hr⟩, hsign]

/-- An exponent that is read behind digits and a fraction without fault is the longest one, and a
bad one spills over. -/
theorem exponent_spec {e word rest : Text} {fault? : Option LexicalFault}
    (hr : CodePoint.ofChar 'e' ∉ r ∧ CodePoint.ofChar 'E' ∉ r)
    (hpoint : ¬ ((e ++ (word ++ rest)).head? = some (CodePoint.ofChar '.') ∧
      r.all CodePoint.isDigit))
    (hexponent : exponent (e ++ (word ++ rest)) = ⟨e, fault?, word ++ rest⟩)
    (hword : Text.splitWhile CodePoint.continuesWord (word ++ rest) = (word, rest)) :
    ∃ x behind, e ++ (word ++ rest) = x ++ behind ∧ Longest exponents (e ++ (word ++ rest)) x ∧
      e ++ word = x ++ spill (r ++ x) behind ∧
      ((fault? = none ∧ word = []) ↔ spill (r ++ x) behind = []) := by
  have htake : (word ++ rest).takeWhile CodePoint.continuesWord = word := (Prod.mk.inj hword).1
  obtain hnone | ⟨c, s, ds, more, hsplit, hparts⟩ := exponent_cases (e ++ (word ++ rest))
  · have hnothing := exponent_of_noExponent hnone
    rw [hexponent, Cut.nothing, Cut.mk.injEq] at hnothing
    obtain ⟨rfl, rfl, -⟩ := hnothing
    rw [List.nil_append] at hnone hpoint
    refine ⟨[], word ++ rest, rfl, hnone.longest, ?_⟩
    rw [List.append_nil, spill_of_noExponent hnone hpoint, htake]
    simp
  · rw [hsplit, hparts.exponent_eq, Cut.mk.injEq] at hexponent
    obtain ⟨rfl, rfl, rfl⟩ := hexponent
    rw [hsplit]
    by_cases hds : ds = []
    · subst hds
      refine ⟨[], c :: (s ++ (word ++ rest)), rfl, hparts.longest_nil, ?_⟩
      simp only [List.append_nil]
      rw [spill_of_exponentParts hparts hr, htake]
      simp
    · refine ⟨c :: (s ++ ds), word ++ rest, by simp, hparts.longest hds, ?_⟩
      have hletter : CodePoint.ofChar 'e' ∈ r ++ c :: (s ++ ds) ∨
          CodePoint.ofChar 'E' ∈ r ++ c :: (s ++ ds) := by
        obtain rfl | rfl := hparts.letter <;> simp
      rw [spill_of_letter hletter, htake]
      simp [hds]

/-- Digits and a fraction without fault, with what is read behind them. -/
theorem numeral_spec {whole f e word rest : Text} {fault? : Option LexicalFault}
    (hwhole : Longest digits (whole ++ (f ++ (e ++ (word ++ rest)))) whole)
    (hf : Longest fractions (f ++ (e ++ (word ++ rest))) f)
    (hpoint : ¬ ((e ++ (word ++ rest)).head? = some (CodePoint.ofChar '.') ∧
      (whole ++ f).all CodePoint.isDigit))
    (hexponent : exponent (e ++ (word ++ rest)) = ⟨e, fault?, word ++ rest⟩)
    (hword : Text.splitWhile CodePoint.continuesWord (word ++ rest) = (word, rest)) :
    ∃ r behind, whole ++ (f ++ (e ++ (word ++ rest))) = r ++ behind ∧
      Longest numerals (whole ++ (f ++ (e ++ (word ++ rest)))) r ∧
      whole ++ f ++ e ++ word = r ++ spill r behind ∧
      ((fault? = none ∧ word = []) ↔ spill r behind = []) := by
  have hletter : ∀ c, c = CodePoint.ofChar 'e' ∨ c = CodePoint.ofChar 'E' → c ∉ whole ++ f := by
    intro c hc hmem
    have hdigit : c = CodePoint.ofChar '.' ∨ c.isDigit :=
      (List.mem_append.1 hmem).elim (fun h => .inr (hwhole.mem.2 c h)) (mem_of_mem_fractions hf.mem)
    obtain rfl | rfl := hc <;> exact absurd hdigit (by decide)
  obtain ⟨x, behind, hsplit, hx, hraw, hfault⟩ :=
    exponent_spec ⟨hletter _ (.inl rfl), hletter _ (.inr rfl)⟩ hpoint hexponent hword
  refine ⟨whole ++ (f ++ x), behind, ?_, longest_numerals hwhole hf hx, ?_, ?_⟩
  · rw [hsplit]
    simp only [List.append_assoc]
  · rw [List.append_assoc, hraw]
    simp only [List.append_assoc]
  · rw [hfault, List.append_assoc]

/-- Digits and a point without digits behind it, after which there is no exponent. -/
theorem missingFraction_spec {whole word rest : Text}
    (hword : Text.splitWhile CodePoint.continuesWord (word ++ rest) = (word, rest))
    (hbehind : (word ++ rest).EndsRun CodePoint.isDigit)
    (hwhole : Longest digits (whole ++ CodePoint.ofChar '.' :: (word ++ rest)) whole) :
    Longest numerals (whole ++ CodePoint.ofChar '.' :: (word ++ rest)) whole ∧
      spill whole (CodePoint.ofChar '.' :: (word ++ rest)) = CodePoint.ofChar '.' :: word := by
  constructor
  · have hf : Longest fractions ([] ++ CodePoint.ofChar '.' :: (word ++ rest)) [] :=
      longest_fractions_nil fun u hu => (List.cons.inj hu).2 ▸ hbehind
    have he : NoExponent (CodePoint.ofChar '.' :: (word ++ rest)) := by
      intro d v hv hd
      obtain rfl := (List.cons.inj hv).1
      exact absurd hd (by decide)
    simpa using longest_numerals hwhole hf he.longest
  · have htake : (word ++ rest).takeWhile CodePoint.continuesWord = word := (Prod.mk.inj hword).1
    rw [spill, if_pos ⟨rfl, List.all_eq_true.2 hwhole.mem.2⟩, htake]

/-- The literal at a digit is the longest numeral there with what spills over, and it is at fault
where something does. -/
theorem cut_spec (hc : c.isDigit) (t : Text) : ∃ r behind, c :: t = r ++ behind ∧
    Longest numerals (c :: t) r ∧ (cut (c :: t)).taken = r ++ spill r behind ∧
      ((cut (c :: t)).fault? = none ↔ Ends r behind) := by
  simp only [← spill_eq_nil_iff]
  obtain ⟨whole, f, e, word, inFraction?, inExponent?, rest, ht, hparts⟩ := exists_parts (c :: t)
  obtain ⟨hall, hend⟩ := Text.splitWhile_append_eq_iff.1 hparts.whole
  have hne : whole ≠ [] := by
    rintro rfl
    rw [List.nil_append] at ht
    rw [← ht] at hend
    exact absurd hc (by simp [hend c rfl])
  have hwhole := longest_digits ⟨hne, hall⟩ hend
  have hexponent := hparts.exponent
  rw [ht, hparts.cut_eq]
  obtain ⟨rfl, rfl, hpoint⟩ | ⟨ds, rfl, hsplit, rfl⟩ := fraction_eq_iff.1 hparts.fraction
  · have hno : (e ++ (word ++ rest)).head? ≠ some (CodePoint.ofChar '.') := by
      intro hhead
      simpa using hpoint _ hhead
    have hf : Longest fractions ([] ++ (e ++ (word ++ rest))) [] :=
      longest_fractions_nil fun u hu => absurd (congrArg List.head? hu) hno
    obtain ⟨r, behind, hr, hlongest, hraw, hfault⟩ :=
      numeral_spec hwhole hf (fun h => hno h.1) hexponent hparts.word
    refine ⟨r, behind, hr, hlongest, hraw, ?_⟩
    rw [← hfault]
    simp
  · obtain ⟨hds, hbehind⟩ := Text.splitWhile_append_eq_iff.1 hsplit
    by_cases hnil : ds = []
    · -- the point and a word behind it spill over, whatever the word may be
      subst hnil
      obtain ⟨rfl, rfl, -⟩ := Cut.mk.inj hexponent
      obtain ⟨hlongest, hspill⟩ := missingFraction_spec hparts.word hbehind hwhole
      refine ⟨whole, CodePoint.ofChar '.' :: (word ++ rest), rfl, hlongest, ?_, ?_⟩ <;>
        simp [hspill]
    · have hpoint : ¬ (whole ++ CodePoint.ofChar '.' :: ds).all CodePoint.isDigit := by
        rw [List.all_eq_true]
        intro h
        exact absurd (h (CodePoint.ofChar '.') (by simp)) (by decide)
      rw [if_neg hnil] at hexponent ⊢
      obtain ⟨r, behind, hr, hlongest, hraw, hfault⟩ :=
        numeral_spec hwhole (longest_fractions ⟨hnil, hds⟩ hbehind) (fun h => hpoint h.2) hexponent
          hparts.word
      refine ⟨r, behind, hr, hlongest, hraw, ?_⟩
      rw [← hfault]
      simp

end Spill

section Value
variable {c : CodePoint} {n : Nat} {w : Text}

/-- The natural number that decimal digits spell. -/
def natural (w : Text) : Nat := w.foldl (fun n c => 10 * n + (c.val - 0x30)) 0

theorem ofNat_digit (hc : c.isDigit) : Text.ofNat (c.val - 0x30) = [c] := by
  simp only [CodePoint.isDigit, Bool.and_eq_true, decide_eq_true_eq] at hc
  have hlt : c.val - 0x30 < 10 := by omega
  rw [Text.ofNat, Nat.toDigits_of_lt_base hlt, List.map_singleton]
  refine congrArg ([·]) (CodePoint.ext ?_)
  rw [CodePoint.val_ofChar, Nat.toNat_digitChar_of_lt_ten hlt]
  omega

/-- Digits behind the numeral of a number that is not zero make the numeral of a larger one. -/
theorem ofNat_foldl (hn : 0 < n) (hw : ∀ c ∈ w, c.isDigit) :
    Text.ofNat (w.foldl (fun n c => 10 * n + (c.val - 0x30)) n) = Text.ofNat n ++ w := by
  induction w generalizing n with
  | nil => simp
  | cons c w ih =>
    have hc := hw c List.mem_cons_self
    have hdigit := ofNat_digit hc
    simp only [CodePoint.isDigit, Bool.and_eq_true, decide_eq_true_eq] at hc
    have hlast : Text.ofNat (10 * n + (c.val - 0x30)) = Text.ofNat n ++ [c] := by
      rw [← hdigit, Text.ofNat, Text.ofNat, Text.ofNat, ← List.map_append,
        Nat.toDigits_append_toDigits (by decide) hn (by omega)]
    rw [List.foldl_cons, ih (by omega) fun d hd => hw d (List.mem_cons_of_mem c hd), hlast,
      List.append_assoc, List.singleton_append]

/-- An integer is spelled anew. -/
theorem canonical_digits (hw : w.all CodePoint.isDigit) : canonical w = Text.ofNat (natural w) := by
  rw [canonical, if_pos hw]
  rw [List.all_eq_true] at hw
  induction w with
  | nil => rfl
  | cons c w ih =>
    by_cases hzero : c = CodePoint.ofChar '0'
    · subst hzero
      have hnatural : natural (CodePoint.ofChar '0' :: w) = natural w := rfl
      rw [hnatural, ← ih fun d hd => hw d (List.mem_cons_of_mem _ hd)]
      simp
    · have hc := hw c List.mem_cons_self
      have hpos : 0 < c.val - 0x30 := by
        simp only [CodePoint.isDigit, Bool.and_eq_true, decide_eq_true_eq] at hc
        have hval : c.val ≠ 0x30 := fun h => hzero (CodePoint.ext h)
        omega
      have hnumber : natural (c :: w) =
          w.foldl (fun n c => 10 * n + (c.val - 0x30)) (c.val - 0x30) := by
        simp [natural]
      rw [hnumber, ofNat_foldl hpos fun d hd => hw d (List.mem_cons_of_mem c hd), ofNat_digit hc]
      simp [hzero]

end Value

end LenSyntax.Number

import LenSyntax.Proofs.Lexeme.Boundary

/-! A numeric literal falls into digits, a fraction, an exponent and the rest of a word. Each part
ends in front of the first code point that does not belong to it, and so does the literal. -/
namespace LenSyntax

namespace Number
variable {w t u : Text} {fault? : Option LexicalFault}

theorem fraction_point (t : Text) :
    let s := Text.splitWhile CodePoint.isDigit t
    fraction (CodePoint.ofChar '.' :: t) =
      ⟨CodePoint.ofChar '.' :: s.1, if s.1 = [] then some .missingFraction else none, s.2⟩ := by
  simp [fraction, Text.splitWhile]

theorem fraction_of_endsRun (h : t.EndsRun (· = CodePoint.ofChar '.')) :
    fraction t = .nothing t := by
  cases t with
  | nil => rfl
  | cons c t =>
    have hc : c ≠ CodePoint.ofChar '.' := by simpa using h c rfl
    simp [fraction, hc]

/-- A fraction is nothing in front of what is no point, or a point and all digits behind it. -/
theorem fraction_eq_iff : fraction (w ++ t) = ⟨w, fault?, t⟩ ↔
    (w = [] ∧ fault? = none ∧ t.EndsRun (· = CodePoint.ofChar '.')) ∨
      ∃ ds, w = CodePoint.ofChar '.' :: ds ∧ Text.splitWhile CodePoint.isDigit (ds ++ t) = (ds, t) ∧
        fault? = if ds = [] then some .missingFraction else none := by
  constructor
  · intro h
    cases w with
    | nil =>
      have ht : t.EndsRun (· = CodePoint.ofChar '.') := by
        intro c hc
        obtain ⟨t, rfl⟩ := List.head?_eq_some_iff.1 hc
        by_contra hdot
        simp_all [fraction]
      rw [List.nil_append, fraction_of_endsRun ht, Cut.nothing, Cut.mk.injEq] at h
      exact .inl ⟨rfl, h.2.1.symm, ht⟩
    | cons c ds =>
      have hc : c = CodePoint.ofChar '.' := by
        by_contra hc
        simp [fraction, hc, Cut.nothing] at h
      subst hc
      rw [List.cons_append, fraction_point, Cut.mk.injEq, List.cons.injEq] at h
      obtain ⟨⟨-, hds⟩, hfault, hrest⟩ := h
      rw [hds] at hfault
      exact .inr ⟨ds, rfl, Prod.ext hds hrest, hfault.symm⟩
  · rintro (⟨rfl, rfl, ht⟩ | ⟨ds, rfl, hsplit, rfl⟩)
    · exact fraction_of_endsRun ht
    · rw [List.cons_append, fraction_point, hsplit]

theorem fraction_startsLike (hu : t.StartsLike u) (h : fraction (w ++ t) = ⟨w, fault?, t⟩) :
    fraction (w ++ u) = ⟨w, fault?, u⟩ := by
  rw [fraction_eq_iff] at h ⊢
  obtain ⟨hw, hfault, ht⟩ | ⟨ds, hw, hsplit, hfault⟩ := h
  · exact .inl ⟨hw, hfault, hu.endsRun (by decide) ht⟩
  · exact .inr ⟨ds, hw, hu.splitWhile_eq (by decide) hsplit, hfault⟩

theorem sign_of_endsRun
    (h : t.EndsRun fun c => c = CodePoint.ofChar '+' ∨ c = CodePoint.ofChar '-') :
    sign t = ([], t) := by
  cases t with
  | nil => rfl
  | cons c t =>
    have hc : ¬ (c = CodePoint.ofChar '+' ∨ c = CodePoint.ofChar '-') := by simpa using h c rfl
    rw [sign, if_neg hc]

theorem sign_startsLike (hu : t.StartsLike u) (h : sign (w ++ t) = (w, t)) :
    sign (w ++ u) = (w, u) := by
  cases w with
  | nil =>
    refine sign_of_endsRun (hu.endsRun (by decide) fun c hc => ?_)
    obtain ⟨t, rfl⟩ := List.head?_eq_some_iff.1 hc
    by_contra hsign
    simp_all [sign]
  | cons c s =>
    by_cases hc : c = CodePoint.ofChar '+' ∨ c = CodePoint.ofChar '-'
    · simp_all [sign]
    · simp [sign, hc] at h

/-- No exponent starts a text: its first letter may be that of one, but goes on with a word. -/
def NoExponent (t : Text) : Prop :=
  ∀ c v, t = c :: v → c = CodePoint.ofChar 'e' ∨ c = CodePoint.ofChar 'E' →
    ∃ d ∈ v.head?, d.continuesWord ∧ ¬ d.isDigit

theorem exponent_of_noExponent (h : NoExponent t) : exponent t = .nothing t := by
  cases t with
  | nil => rfl
  | cons c v =>
    by_cases hc : c = CodePoint.ofChar 'e' ∨ c = CodePoint.ofChar 'E'
    · obtain ⟨d, hd, hword, hdigit⟩ := h c v rfl hc
      obtain ⟨v, rfl⟩ := List.head?_eq_some_iff.1 hd
      have hsign : ¬ (d = CodePoint.ofChar '+' ∨ d = CodePoint.ofChar '-') := by
        rintro (rfl | rfl)
        · exact absurd hword (by decide)
        · exact absurd hword (by decide)
      simp [exponent, sign, hc, hsign, hdigit, hword]
    · simp [exponent, hc]

/-- An exponent in front of a text: a letter, a sign and digits. Where there is neither sign nor
digit, the letter has to end a word. -/
structure ExponentParts (t : Text) (c : CodePoint) (s ds : Text) : Prop where
  letter : c = CodePoint.ofChar 'e' ∨ c = CodePoint.ofChar 'E'
  sign : sign (s ++ (ds ++ t)) = (s, ds ++ t)
  digits : Text.splitWhile CodePoint.isDigit (ds ++ t) = (ds, t)
  stop : ds ≠ [] ∨ s ≠ [] ∨ t.EndsRun CodePoint.continuesWord

namespace ExponentParts
variable {c : CodePoint} {s ds : Text}

theorem startsLike (hu : t.StartsLike u) (h : ExponentParts t c s ds) : ExponentParts u c s ds where
  letter := h.letter
  sign := sign_startsLike (hu.append_left ds) h.sign
  digits := hu.splitWhile_eq (by decide) h.digits
  stop := h.stop.imp_right fun hend => hend.imp_right (hu.endsRun (by decide))

theorem exponent_eq (h : ExponentParts t c s ds) :
    exponent (c :: (s ++ (ds ++ t))) =
      ⟨c :: (s ++ ds), if ds = [] then some .missingExponent else none, t⟩ := by
  have hsign := h.sign
  obtain ⟨hdigits, hrest⟩ := Prod.mk.inj h.digits
  obtain ⟨hall, hend⟩ := Text.splitWhile_append_eq_iff.1 h.digits
  cases ds with
  | nil =>
    have hdigit : ¬ t.head?.any CodePoint.isDigit := by
      simpa using Text.endsRun_iff_any_eq_false.1 hend
    have hword : s ≠ [] ∨ !((s ++ t).head?.any CodePoint.continuesWord) := by
      by_cases hs : s = []
      · subst hs
        simpa [Text.endsRun_iff_any_eq_false] using h.stop
      · exact .inl hs
    rw [List.nil_append] at hsign ⊢
    simp only [exponent, if_pos h.letter, hsign, if_neg hdigit, if_pos hword, List.append_nil,
      if_true]
  | cons d ds =>
    have hdigit : ((d :: ds) ++ t).head?.any CodePoint.isDigit := hall d List.mem_cons_self
    simp only [exponent, if_pos h.letter, hsign, if_pos hdigit, hdigits, hrest]
    rfl

end ExponentParts

/-- An exponent starts a text or it does not. -/
theorem exponent_cases (t : Text) :
    NoExponent t ∨ ∃ (c : CodePoint) (s ds rest : Text), t = c :: (s ++ (ds ++ rest)) ∧
      ExponentParts rest c s ds := by
  rw [or_iff_not_imp_left, NoExponent]
  intro hyes
  push Not at hyes
  obtain ⟨c, u, rfl, hc, hword⟩ := hyes
  obtain ⟨s, v, hsign⟩ : ∃ s v, sign u = (s, v) := ⟨_, _, rfl⟩
  obtain ⟨ds, rest, hds⟩ : ∃ ds rest, Text.splitWhile CodePoint.isDigit v = (ds, rest) :=
    ⟨_, _, rfl⟩
  have hu := sign_append u
  have hv := Text.splitWhile_append CodePoint.isDigit v
  simp only [hsign, hds] at hu hv
  subst hu hv
  refine ⟨c, s, ds, rest, rfl, hc, hsign, hds, ?_⟩
  by_contra hstop
  simp only [not_or, not_not] at hstop
  obtain ⟨rfl, rfl, hgoes⟩ := hstop
  have hend := (Text.splitWhile_append_eq_iff.1 hds).2
  refine hgoes fun d hd => ?_
  by_contra hgoing
  have hdigit := hword d hd (by simpa using hgoing)
  rw [hend d hd] at hdigit
  cases hdigit

theorem noExponent_of_taken_eq_nil (h : (exponent t).taken = []) : NoExponent t := by
  refine (exponent_cases t).resolve_right ?_
  rintro ⟨c, s, ds, rest, rfl, hparts⟩
  rw [hparts.exponent_eq] at h
  cases h

theorem exponent_startsLike (hw : w ≠ []) (hu : t.StartsLike u)
    (h : exponent (w ++ t) = ⟨w, fault?, t⟩) : exponent (w ++ u) = ⟨w, fault?, u⟩ := by
  obtain hnone | ⟨c, s, ds, rest, ht, hparts⟩ := exponent_cases (w ++ t)
  · rw [exponent_of_noExponent hnone] at h
    exact absurd (Cut.mk.inj h).1.symm hw
  · rw [ht, hparts.exponent_eq, Cut.mk.injEq] at h
    obtain ⟨rfl, rfl, rfl⟩ := h
    rw [List.cons_append, List.append_assoc]
    exact (hparts.startsLike hu).exponent_eq

/-- The exponent behind a fraction; behind a bad one there is none. -/
def exponentBehind (fault? : Option LexicalFault) (t : Text) : Cut :=
  if fault?.isSome then .nothing t else exponent t

theorem exponentBehind_append (fault? : Option LexicalFault) (t : Text) :
    (exponentBehind fault? t).taken ++ (exponentBehind fault? t).rest = t := by
  unfold exponentBehind
  split
  · rfl
  · exact exponent_append t

/-- The parts of a literal in front of a text: digits, a fraction and an exponent with what is wrong
with them, and the rest of a word. -/
structure Parts (t whole f e word : Text) (inFraction? inExponent? : Option LexicalFault) :
    Prop where
  whole : Text.splitWhile CodePoint.isDigit (whole ++ (f ++ (e ++ (word ++ t)))) =
    (whole, f ++ (e ++ (word ++ t)))
  fraction : fraction (f ++ (e ++ (word ++ t))) = ⟨f, inFraction?, e ++ (word ++ t)⟩
  exponent : exponentBehind inFraction? (e ++ (word ++ t)) = ⟨e, inExponent?, word ++ t⟩
  word : Text.splitWhile CodePoint.continuesWord (word ++ t) = (word, t)

theorem NoExponent.startsLike (hu : t.StartsLike u)
    (hw : Text.splitWhile CodePoint.continuesWord (w ++ t) = (w, t)) (h : NoExponent (w ++ t)) :
    NoExponent (w ++ u) := by
  have ht := (Text.splitWhile_append_eq_iff.1 hw).2
  have hletter : ∀ c : CodePoint, c = CodePoint.ofChar 'e' ∨ c = CodePoint.ofChar 'E' →
      c.continuesWord = true := by
    rintro c (rfl | rfl) <;> decide
  intro c v hv hc
  cases w with
  | nil =>
    have hstop := hu.endsRun (by decide) ht c (by rw [show u = c :: v from hv]; rfl)
    rw [hletter c hc] at hstop
    cases hstop
  | cons d w =>
    obtain ⟨rfl, rfl⟩ := List.cons.inj hv
    obtain ⟨x, hx, hword⟩ := h d (w ++ t) rfl hc
    cases w with
    | nil => exact absurd hword.1 (by simp [ht x hx])
    | cons y w => exact ⟨x, hx, hword⟩

namespace Parts
variable {whole f e word : Text} {inFraction? inExponent? : Option LexicalFault}

theorem startsLike (hu : t.StartsLike u) (h : Parts t whole f e word inFraction? inExponent?) :
    Parts u whole f e word inFraction? inExponent? := by
  have hword := hu.append_left word
  refine ⟨((hword.append_left e).append_left f).splitWhile_eq (by decide) h.whole,
    fraction_startsLike (hword.append_left e) h.fraction, ?_,
    hu.splitWhile_eq (by decide) h.word⟩
  have hexponent := h.exponent
  unfold exponentBehind at hexponent ⊢
  split at hexponent
  · next hbad =>
    obtain ⟨rfl, rfl, -⟩ := Cut.mk.inj hexponent
    rw [if_pos hbad]
    rfl
  · next hgood =>
    rw [if_neg hgood]
    by_cases he : e = []
    · subst he
      have hnone := noExponent_of_taken_eq_nil (congrArg Cut.taken hexponent)
      rw [exponent_of_noExponent hnone] at hexponent
      rw [List.nil_append, exponent_of_noExponent (hnone.startsLike hu h.word)]
      obtain ⟨-, rfl, -⟩ := Cut.mk.inj hexponent
      rfl
    · exact exponent_startsLike he hword hexponent

theorem cut_eq (h : Parts t whole f e word inFraction? inExponent?) :
    cut (whole ++ (f ++ (e ++ (word ++ t)))) =
      ⟨whole ++ f ++ e ++ word, inFraction?.or (inExponent?.or
        (if word = [] then none else some (.invalidNumber (whole ++ f ++ e ++ word)))), t⟩ := by
  obtain ⟨hwhole, hbehind⟩ := Prod.mk.inj h.whole
  obtain ⟨hword, hrest⟩ := Prod.mk.inj h.word
  have hexponent := h.exponent
  unfold exponentBehind at hexponent
  simp only [cut, hwhole, hbehind, h.fraction, hexponent, hword, hrest]

end Parts

theorem exists_parts (t : Text) : ∃ whole f e word inFraction? inExponent? rest,
    t = whole ++ (f ++ (e ++ (word ++ rest))) ∧
      Parts rest whole f e word inFraction? inExponent? := by
  obtain ⟨whole, behind, hwhole⟩ : ∃ w u, Text.splitWhile CodePoint.isDigit t = (w, u) :=
    ⟨_, _, rfl⟩
  obtain ⟨f, inFraction?, inner, hf⟩ : ∃ w fault? u, fraction behind = ⟨w, fault?, u⟩ :=
    ⟨_, _, _, rfl⟩
  obtain ⟨e, inExponent?, last, he⟩ :
      ∃ w fault? u, exponentBehind inFraction? inner = ⟨w, fault?, u⟩ := ⟨_, _, _, rfl⟩
  obtain ⟨word, rest, hword⟩ : ∃ w u, Text.splitWhile CodePoint.continuesWord last = (w, u) :=
    ⟨_, _, rfl⟩
  have htext := Text.splitWhile_append CodePoint.isDigit t
  have hbehind := fraction_append behind
  have hinner := exponentBehind_append inFraction? inner
  have hlast := Text.splitWhile_append CodePoint.continuesWord last
  simp only [hwhole, hf, he, hword] at htext hbehind hinner hlast
  subst htext hbehind hinner hlast
  exact ⟨whole, f, e, word, inFraction?, inExponent?, rest, rfl, hwhole, hf, he, hword⟩

theorem cut_startsLike (hu : t.StartsLike u) (h : cut (w ++ t) = ⟨w, fault?, t⟩) :
    cut (w ++ u) = ⟨w, fault?, u⟩ := by
  obtain ⟨whole, f, e, word, inFraction?, inExponent?, rest, ht, hparts⟩ := exists_parts (w ++ t)
  rw [ht, hparts.cut_eq, Cut.mk.injEq] at h
  obtain ⟨rfl, rfl, rfl⟩ := h
  simpa using (hparts.startsLike hu).cut_eq

theorem fraction_fault?_ne (t : Text) : (fraction t).fault? ≠ some .openComment := by
  cases t with
  | nil => simp [fraction, Cut.nothing]
  | cons c t =>
    by_cases hc : c = CodePoint.ofChar '.'
    · subst hc
      rw [fraction_point]
      simp only
      split <;> simp
    · simp [fraction, hc, Cut.nothing]

theorem exponent_fault?_ne (t : Text) : (exponent t).fault? ≠ some .openComment := by
  obtain hnone | ⟨c, s, ds, rest, rfl, hparts⟩ := exponent_cases t
  · simp [exponent_of_noExponent hnone, Cut.nothing]
  · rw [hparts.exponent_eq]
    simp only
    split <;> simp

/-- No number is taken for a comment. -/
theorem cut_fault?_ne (t : Text) : (cut t).fault? ≠ some .openComment := by
  obtain ⟨whole, f, e, word, inFraction?, inExponent?, rest, rfl, hparts⟩ := exists_parts t
  have hfraction := fraction_fault?_ne (f ++ (e ++ (word ++ rest)))
  rw [hparts.fraction] at hfraction
  have hexponent : (exponentBehind inFraction? (e ++ (word ++ rest))).fault? ≠
      some .openComment := by
    unfold exponentBehind
    split
    · simp [Cut.nothing]
    · exact exponent_fault?_ne _
  rw [hparts.exponent] at hexponent
  rw [hparts.cut_eq]
  simp only [ne_eq, Option.or_eq_some_iff, not_or, not_and]
  refine ⟨hfraction, fun _ => ⟨hexponent, fun _ => ?_⟩⟩
  split <;> simp

end Number
end LenSyntax

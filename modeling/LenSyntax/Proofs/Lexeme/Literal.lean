import LenSyntax.Proofs.Lexeme.Boundary

/-! A string literal is read up to its closing quote and on one line: neither its pieces nor where
it ends depend on what stands behind it. -/
namespace LenSyntax

namespace Literal

/-- At most `width` hexadecimal digits in front of a text, and no fewer than stand there. -/
structure HexRun (width : Nat) (digits rest : Text) : Prop where
  hex : ∀ d ∈ digits, d.isHexDigit
  length_le : digits.length ≤ width
  stop : digits.length < width → rest.EndsRun CodePoint.isHexDigit

/-- A run of digits ends in front of what does not go on with it, unless its length is reached. -/
theorem hexRun_iff {width : Nat} {digits t : Text} :
    ((digits ++ t).take width).takeWhile CodePoint.isHexDigit = digits ↔ HexRun width digits t := by
  have hleft (hhex : ∀ d ∈ digits, d.isHexDigit) (hlength : digits.length ≤ width) :
      ((digits ++ t).take width).takeWhile CodePoint.isHexDigit = digits ↔
        (t.take (width - digits.length)).takeWhile CodePoint.isHexDigit = [] := by
    rw [List.take_append, List.take_of_length_le hlength, List.takeWhile_append_of_pos hhex,
      List.append_right_eq_self]
  constructor
  · intro h
    have hhex : ∀ d ∈ digits, d.isHexDigit := fun d hd => List.mem_takeWhile_imp (h ▸ hd)
    have hlength : digits.length ≤ width := by
      have hle := (List.takeWhile_sublist CodePoint.isHexDigit
        (l := (digits ++ t).take width)).length_le
      rw [h, List.length_take] at hle
      omega
    refine ⟨hhex, hlength, fun hshort c hc => ?_⟩
    obtain ⟨t, rfl⟩ := List.head?_eq_some_iff.1 hc
    obtain ⟨left, hwidth⟩ := Nat.exists_eq_add_of_lt hshort
    rw [hleft hhex hlength, show width - digits.length = left + 1 by omega] at h
    simpa using h
  · rintro ⟨hhex, hlength, hstop⟩
    rw [hleft hhex hlength]
    obtain hfull | hshort := Nat.eq_or_lt_of_le hlength
    · simp [hfull]
    · have hstart : (t.take (width - digits.length)).head? = t.head? := by
        rw [List.head?_take, if_neg (by omega)]
      exact Text.EndsRun.takeWhile_eq_nil fun c hc => hstop hshort c (hstart ▸ hc)

theorem exists_hexRun (width : Nat) (t : Text) : ∃ rest,
    t = (t.take width).takeWhile CodePoint.isHexDigit ++ rest ∧
      HexRun width ((t.take width).takeWhile CodePoint.isHexDigit) rest := by
  obtain ⟨rest, ht⟩ := (List.takeWhile_prefix CodePoint.isHexDigit (l := t.take width)).trans
    (List.take_prefix width t)
  generalize hdigits : (t.take width).takeWhile CodePoint.isHexDigit = digits at ht
  subst ht
  exact ⟨rest, rfl, hexRun_iff.1 hdigits⟩

/-- The same digits stand in front of another text that does not go on with them either. -/
theorem HexRun.of_endsRun {width : Nat} {digits t u : Text} (h : HexRun width digits t)
    (hu : t.EndsRun CodePoint.isHexDigit → u.EndsRun CodePoint.isHexDigit) :
    HexRun width digits u :=
  ⟨h.hex, h.length_le, fun hshort => hu (h.stop hshort)⟩

/-- An escape reads no further than to the first code point that it leaves. -/
theorem escape_local (c : CodePoint) (t : Text) :
    ∃ digits, CodePoint.ofChar '\n' ∉ digits ∧ t = digits ++ (escape c t).2 ∧
      ∀ u : Text, u.head? = (escape c t).2.head? →
        escape c (digits ++ u) = ((escape c t).1, u) := by
  unfold escape
  split
  · exact ⟨[], by simp, rfl, fun u hu => rfl⟩
  · next width _ _ =>
    simp only
    obtain ⟨rest, ht, hrun⟩ := exists_hexRun width t
    generalize (t.take width).takeWhile CodePoint.isHexDigit = digits at ht hrun
    subst ht
    refine ⟨digits, fun hmem => absurd (hrun.hex _ hmem) (by decide), by simp, fun u hu => ?_⟩
    rw [List.drop_left] at hu
    have hsame := hexRun_iff.2 (hrun.of_endsRun fun hend c hc => hend c (hu ▸ hc))
    simp [hsame]
  · exact ⟨[], by simp, rfl, fun u hu => rfl⟩

theorem bodyAux_quote (read : List Piece) (t : Text) :
    bodyAux read (CodePoint.ofChar '"' :: t) = some (read.reverse, t) := by
  rw [bodyAux.eq_def]
  rfl

theorem bodyAux_plain {c : CodePoint} (hquote : c ≠ CodePoint.ofChar '"')
    (hline : c ≠ CodePoint.ofChar '\n') (hslash : c ≠ CodePoint.ofChar '\\') (read : List Piece)
    (t : Text) : bodyAux read (c :: t) = bodyAux (.plain c :: read) t := by
  rw [bodyAux.eq_def]
  simp only [hquote, hline, hslash, if_false]

theorem bodyAux_escape {d : CodePoint} (hd : d ≠ CodePoint.ofChar '\n') (read : List Piece)
    (t : Text) : bodyAux read (CodePoint.ofChar '\\' :: d :: t) =
      bodyAux ((escape d t).1 :: read) (escape d t).2 := by
  rw [bodyAux.eq_def]
  exact if_neg hd

/-- A literal is read the same whatever stands behind its closing quote. -/
theorem bodyAux_local {read ps : List Piece} {t rest : Text}
    (h : bodyAux read t = some (ps, rest)) :
    ∃ w, CodePoint.ofChar '\n' ∉ w ∧ t = w ++ CodePoint.ofChar '"' :: rest ∧
      ∀ u : Text, bodyAux read (w ++ CodePoint.ofChar '"' :: u) = some (ps, u) := by
  fun_induction bodyAux read t with
  | case1 => cases h
  | case2 read t =>
    obtain ⟨rfl, rfl⟩ := Prod.mk.inj (Option.some.inj h)
    exact ⟨[], by simp, rfl, bodyAux_quote read⟩
  | case3 => cases h
  | case4 => cases h
  | case5 => cases h
  | case6 read d u hd hquote hline ih =>
    obtain ⟨w, hw, hu, hread⟩ := ih h
    obtain ⟨digits, hdigits, hsplit, hescape⟩ := escape_local d u
    refine ⟨CodePoint.ofChar '\\' :: d :: (digits ++ w), ?_, ?_, ?_⟩
    · simp [hdigits, hw, Ne.symm hd]
    · rw [List.cons_append, List.cons_append, List.append_assoc, ← hu, ← hsplit]
    · intro v
      have hhead : (w ++ CodePoint.ofChar '"' :: v).head? = (escape d u).2.head? := by
        rw [hu]
        cases w <;> rfl
      rw [List.cons_append, List.cons_append, List.append_assoc, bodyAux_escape hd,
        hescape _ hhead, hread]
  | case7 read c t hquote hline hslash ih =>
    obtain ⟨w, hw, hu, hread⟩ := ih h
    refine ⟨c :: w, ?_, ?_, ?_⟩
    · simp [hw, Ne.symm hline]
    · rw [hu]
      rfl
    · intro v
      rw [List.cons_append, bodyAux_plain hquote hline hslash, hread]

/-- No quote behind the end of a line closes a literal. -/
theorem body_eq_none {w t u : Text} (hu : u.EndsRun (· ≠ CodePoint.ofChar '\n'))
    (h : body (w ++ t) = none) : body (w ++ u) = none := by
  by_contra hsome
  obtain ⟨⟨pieces, rest⟩, hbody⟩ := Option.ne_none_iff_exists'.1 hsome
  obtain ⟨v, hv, hsplit, hread⟩ := bodyAux_local hbody
  have hline : ∀ c x, u = c :: x → c = CodePoint.ofChar '\n' := by
    rintro c x rfl
    simpa using hu c rfl
  obtain ⟨x, rfl, hx⟩ | ⟨x, rfl, hx⟩ := List.append_eq_append_iff.1 hsplit
  · cases x with
    | nil => exact absurd (hline _ _ hx) (by decide)
    | cons c x => exact hv (by simp [hline c _ hx])
  · cases x with
    | nil => exact absurd (hline _ _ hx.symm) (by decide)
    | cons c x =>
      obtain ⟨rfl, -⟩ := List.cons.inj hx
      have hclosed : body (v ++ CodePoint.ofChar '"' :: x ++ t) = some (pieces, x ++ t) := by
        rw [List.append_assoc]
        exact hread (x ++ t)
      rw [h] at hclosed
      cases hclosed

end Literal
end LenSyntax

import LenSyntax.Proofs.Lexeme.Numeral
import LenSyntax.Proofs.Token.Scanning

/-! Tokens of numeric literals. A token that starts at a digit is the longest numeral there, unless
more belongs to the literal, which makes it an error. -/
namespace LenSyntax

namespace Lexeme

theorem scan_digit {c : CodePoint} (hc : c.isDigit) (t : Text) :
    scan c t = scanNumber (c :: t) := by
  have hblank : ¬ c.isBlank := by
    simp only [CodePoint.isDigit, Bool.and_eq_true, decide_eq_true_eq] at hc
    simp only [CodePoint.isBlank, Ranges.blanks, Ranges.contains, Bool.and_eq_true,
      Bool.or_eq_true, decide_eq_true_eq]
    omega
  have hslash : c ≠ CodePoint.ofChar '/' := by rintro rfl; exact absurd hc (by decide)
  have hquote : c ≠ CodePoint.ofChar '"' := by rintro rfl; exact absurd hc (by decide)
  unfold scan
  rw [if_neg hblank, if_neg fun h => hslash h.1, if_neg fun h => hslash h.1, if_neg hquote,
    if_pos hc]

/-- A literal is a number or at fault. -/
theorem scanNumber_spec {c : CodePoint} (hc : c.isDigit) (t : Text) :
    ∃ r behind, c :: t = r ++ behind ∧ Number.Longest Number.numerals (c :: t) r ∧
      ((Number.Ends r behind ∧ (scanNumber (c :: t)).1 = .number r) ∨
        (¬ Number.Ends r behind ∧ ∃ fault,
          (scanNumber (c :: t)).1 = .malformed fault (r ++ Number.spill r behind))) := by
  obtain ⟨r, behind, hsplit, hlongest, hraw, hfault⟩ := Number.cut_spec hc t
  refine ⟨r, behind, hsplit, hlongest, ?_⟩
  unfold scanNumber
  generalize Number.cut (c :: t) = s at hraw hfault
  obtain ⟨raw, fault?, rest⟩ := s
  obtain rfl : raw = r ++ Number.spill r behind := hraw
  cases fault? with
  | none =>
    have hends : Number.Ends r behind := hfault.1 rfl
    rw [Number.spill_eq_nil_iff.2 hends, List.append_nil]
    exact .inl ⟨hends, rfl⟩
  | some fault => exact .inr ⟨fun hends => absurd (hfault.2 hends) (by simp), fault, rfl⟩

end Lexeme

/-- A token that starts at a digit reaches over its text. With the longest numeral there it is a
number, spelled anew if it is an integer, where the numeral ends; otherwise it is an error that
takes in what spills over, and is complained about once. -/
theorem Text.numericLiteral_spec {config : Config} {before rest : Text} {c : CodePoint} {t : Token}
    (hc : c.isDigit) (ht : t ∈ ((before ++ c :: rest).tokenStream config).tokens)
    (hstart : t.span.start.offset = before.length) :
    let p := Position.origin.after before
    let complaints := ((before ++ c :: rest).tokenStream config).complaints t
    t.span = ⟨p, p.after t.raw⟩ ∧
      ∃ r behind, c :: rest = r ++ behind ∧ Number.Longest Number.numerals (c :: rest) r ∧
        (Number.Ends r behind →
          t.kind = .number ∧ t.raw = r ∧ complaints = [] ∧
            t.value = if r.all CodePoint.isDigit then Text.ofNat (Number.natural r) else r) ∧
        (¬ Number.Ends r behind →
          t.kind = .error ∧ t.raw = r ++ Number.spill r behind ∧ t.value = t.raw ∧
            ∃ message, complaints = [.error message t.span]) := by
  intro p complaints
  obtain ⟨hspan, htoken, hcomplaints⟩ := token_scanned ht hstart
  rw [Lexeme.scan_digit hc] at hspan htoken hcomplaints
  obtain ⟨r, behind, hsplit, hlongest, hscan⟩ := Lexeme.scanNumber_spec hc rest
  obtain ⟨hends, hscan⟩ | ⟨hends, fault, hscan⟩ := hscan
  · rw [hscan] at hspan htoken hcomplaints
    obtain rfl := Option.some.inj htoken
    refine ⟨rfl, r, behind, hsplit, hlongest, fun _ => ⟨rfl, rfl, hcomplaints, ?_⟩, absurd hends⟩
    by_cases hdigits : r.all CodePoint.isDigit
    · rw [if_pos hdigits]
      exact Number.canonical_digits hdigits
    · rw [if_neg hdigits]
      exact if_neg hdigits
  · rw [hscan] at hspan htoken hcomplaints
    obtain rfl := Option.some.inj htoken
    exact ⟨rfl, r, behind, hsplit, hlongest, fun h => absurd h hends,
      fun _ => ⟨rfl, rfl, rfl, fault.message, hcomplaints⟩⟩

/-- An integer with leading zeros in front of a number that has lost its fraction. -/
theorem Text.numericLiteral_leadingZeros :
    let source : Text := "1 0042 2.e5"
    ∃ t ∈ (source.tokenStream .standard).tokens, t.span.start.offset = 2 ∧ t.kind = .number ∧
      Number.Longest Number.numerals "0042 2.e5" t.raw ∧ t.value = "42" := by
  intro source
  let t : Token := ⟨.number, "42", "0042", ⟨⟨1, 3, 2⟩, ⟨1, 7, 6⟩⟩⟩
  have ht : t ∈ (source.tokenStream .standard).tokens := by decide +kernel
  obtain ⟨-, r, behind, -, hlongest, hnumber, herror⟩ :=
    @numericLiteral_spec .standard "1 " "042 2.e5" '0' t (by decide) ht rfl
  have hends : Number.Ends r behind := by
    by_contra hends
    exact absurd (herror hends).1 (by decide)
  exact ⟨t, ht, rfl, rfl, (hnumber hends).2.1 ▸ hlongest, rfl⟩

end LenSyntax

import LenSyntax.Proofs.Lexeme.Decoding
import LenSyntax.Proofs.Token.Scanning

/-! Tokens of string literals. A token that starts at a quote is the literal up to the quote that
closes it, with the value and the complaints of its body, or an error up to the end of its line. -/
namespace LenSyntax

namespace Lexeme

theorem scan_quote (t : Text) : scan '"' t = scanString t := by
  unfold scan
  rw [if_neg (by decide), if_neg fun h => absurd h.1 (by decide),
    if_neg fun h => absurd h.1 (by decide), if_pos rfl]

/-- A literal that nothing closes reaches to the end of its line; any other one is read. -/
theorem scanString_spec (t : Text) :
    ((∀ body, ¬ Literal.Closes t body) ∧
      (scanString t).1 =
        .malformed .openString (CodePoint.ofChar '"' :: t.takeWhile (· ≠ CodePoint.ofChar '\n'))) ∨
    ∃ pieces, (scanString t).1 = .string pieces ∧
      Literal.Encloses t (pieces.flatMap Piece.raw) ∧
      ∀ p, Literal.Decodes p (pieces.flatMap Piece.raw) (pieces.flatMap Piece.value)
        (bodyDiagnostics p pieces) := by
  unfold scanString
  cases hbody : Literal.body t with
  | none => exact .inl ⟨Literal.not_closes_of_bodyAux hbody, rfl⟩
  | some read =>
    obtain ⟨pieces, behind⟩ := read
    obtain ⟨_, rfl, -, hencloses, hdecodes⟩ := Literal.exists_decodes_of_bodyAux hbody
    exact .inr ⟨pieces, rfl, hencloses, hdecodes⟩

/-- Only at a quote is a string scanned. -/
theorem eq_quote_of_scan {c : CodePoint} {t : Text} {pieces : List Piece}
    (h : (scan c t).1 = .string pieces) : c = CodePoint.ofChar '"' := by
  by_contra hquote
  unfold scan at h
  split at h
  · cases h
  split at h
  · cases h
  split at h
  · unfold scanBlock at h
    simp only at h
    split at h <;> cases h
  split at h
  · unfold scanNumber at h
    split at h <;> cases h
  split at h
  · cases h
  split at h <;> cases h

end Lexeme

/-- A token that starts at a quote reaches over its text. Where no quote closes the literal, it is
an error up to the end of the line, and that is all that is wrong. Where a body is enclosed, it is a
string up to the closing quote, whose value and complaints are those of the body. -/
theorem Text.stringLiteral_spec {config : Config} {before behind : Text} {t : Token}
    (ht : t ∈ ((before ++ CodePoint.ofChar '"' :: behind).tokenStream config).tokens)
    (hstart : t.span.start.offset = before.length) :
    let p := Position.origin.after before
    let complaints := ((before ++ CodePoint.ofChar '"' :: behind).tokenStream config).complaints t
    t.span = ⟨p, p.after t.raw⟩ ∧
      ((∀ body, ¬ Literal.Closes behind body) →
        t.kind = .error ∧ t.value = t.raw ∧
          t.raw = CodePoint.ofChar '"' :: behind.takeWhile (· ≠ CodePoint.ofChar '\n') ∧
          complaints = [.error "unterminated string literal" t.span]) ∧
      ∀ body, Literal.Encloses behind body →
        t.kind = .string ∧ t.raw = CodePoint.ofChar '"' :: (body ++ "\"") ∧
          ∀ value ds, Literal.Decodes (p.advance '"') body value ds ↔
            t.value = value ∧ complaints = ds := by
  intro p complaints
  obtain ⟨hspan, htoken, hcomplaints⟩ := token_scanned ht hstart
  rw [Lexeme.scan_quote] at hspan htoken hcomplaints
  obtain ⟨hopen, hscan⟩ | ⟨pieces, hscan, hencloses, hdecodes⟩ := Lexeme.scanString_spec behind
  · rw [hscan] at hspan htoken hcomplaints
    obtain rfl := Option.some.inj htoken
    refine ⟨rfl, fun _ => ⟨rfl, rfl, rfl, hcomplaints⟩, fun body hbody => ?_⟩
    exact absurd hbody.toCloses (hopen body)
  · rw [hscan] at hspan htoken hcomplaints
    obtain rfl := Option.some.inj htoken
    refine ⟨rfl, fun hopen => absurd hencloses.toCloses (hopen _), fun body hbody => ?_⟩
    obtain rfl := hencloses.unique hbody
    refine ⟨rfl, rfl, fun value ds => ⟨fun h => ?_, ?_⟩⟩
    · obtain ⟨rfl, rfl⟩ := (hdecodes _).unique h
      exact ⟨rfl, hcomplaints⟩
    · rintro ⟨rfl, rfl⟩
      rw [show complaints = _ from hcomplaints]
      exact hdecodes _

/-- Too few digits and a letter without a meaning, one behind the other. -/
theorem Text.stringLiteral_badEscapes :
    let source : Text := "a \"\\x4\\q\""
    ∃ t ∈ (source.tokenStream .standard).tokens, t.span.start.offset = 2 ∧
      t.kind = .string ∧ t.value = "\\x4\\q" ∧
        (source.tokenStream .standard).complaints t =
          [.error (EscapeFault.incomplete 2 1).message ⟨⟨1, 4, 3⟩, ⟨1, 7, 6⟩⟩,
            .error (EscapeFault.unknown 'q').message ⟨⟨1, 7, 6⟩, ⟨1, 9, 8⟩⟩] := by
  intro source
  let t : Token := ⟨.string, "\\x4\\q", "\"\\x4\\q\"", ⟨⟨1, 3, 2⟩, ⟨1, 10, 9⟩⟩⟩
  have ht : t ∈ (source.tokenStream .standard).tokens := by decide +kernel
  have hdigits : Literal.Settled "\\x4" :=
    @Literal.Settled.escape 'x' "4" (by decide) (by decide)
  have hletter : Literal.Settled "\\q" := @Literal.Settled.escape 'q' [] (by decide) (by decide)
  have hencloses : Literal.Encloses "\\x4\\q\"" "\\x4\\q" :=
    ((Literal.encloses_nil []).settled_append hletter).settled_append hdigits
  have hrun : Literal.HexRun 2 "4" "\\q" :=
    ⟨by decide, by decide, fun _ => Text.endsRun_iff_any_eq_false.2 (by decide)⟩
  have hincomplete : Literal.Escape 'x' "4" "\\q" "\\x4" (some (.incomplete 2 1)) :=
    .incomplete (by decide) hrun (by decide)
  have hunknown : Literal.Escape 'q' [] [] "\\q" (some (.unknown 'q')) :=
    .unknown (by decide) (by decide)
  obtain ⟨-, -, hclosed⟩ := @stringLiteral_spec .standard "a " "\\x4\\q\"" t ht rfl
  obtain ⟨hkind, -, hdecodes⟩ := hclosed _ hencloses
  exact ⟨t, ht, rfl, hkind, (hdecodes _ _).1 (.escape hincomplete (.escape hunknown .nil))⟩

end LenSyntax

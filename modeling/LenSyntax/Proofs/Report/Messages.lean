import LenSyntax.Proofs.Diagnostic.Order
import LenSyntax.Proofs.Report.Wording
import LenSyntax.Proofs.Text.Printable
import LenSyntax.Proofs.Token.StringLiteral
import LenSyntax.Proofs.Token.Tiling

/-! The messages of a report. What a message takes from the source is quoted or made of digits; only
the letter of an unknown escape is taken over as it stands. So that letter is the one thing in a
message that can be unprintable. -/
namespace LenSyntax

section Faults

theorem LexicalFault.printable_message (fault : LexicalFault) : fault.message.Printable := by
  cases fault with
  | unexpected run =>
    rw [message]
    split <;> exact .ascii_append (by decide) (Text.printable_quoted run)
  | openComment => exact Text.printable_of_ascii (by decide)
  | openString => exact Text.printable_of_ascii (by decide)
  | missingFraction => exact Text.printable_of_ascii (by decide)
  | missingExponent => exact Text.printable_of_ascii (by decide)
  | invalidNumber raw => exact .ascii_append (by decide) (Text.printable_quoted raw)

theorem CodePoint.isPrintable_of_isHexDigit {c : CodePoint} (h : c.isHexDigit) :
    c.isPrintable := by
  unfold isHexDigit hexValue? at h
  split at h
  · exact isPrintable_of_ascii (by omega) (by omega)
  split at h
  · exact isPrintable_of_ascii (by omega) (by omega)
  split at h
  · exact isPrintable_of_ascii (by omega) (by omega)
  · cases h

theorem EscapeFault.printable_unknown {c : CodePoint} (hc : c.isPrintable) :
    (unknown c).message.Printable := by
  have hquote : Text.Printable "'" := Text.printable_of_ascii (by decide)
  exact (Text.Printable.ascii_append (by decide) (by simpa [Text.Printable] using hc)).append hquote

/-- What is said of an escape is printable, unless its letter is unknown and unprintable. -/
theorem Literal.Escape.printable_message {letter : CodePoint} {digits rest meaning : Text}
    {fault : EscapeFault} (h : Escape letter digits rest meaning (some fault)) :
    fault.message.Printable ∨
      (digits = [] ∧ fault = .unknown letter ∧ ¬ letter.isPrintable) := by
  cases h with
  | outOfRange hw hd hfull hn =>
    have hdigits : digits.Printable :=
      fun c hc => CodePoint.isPrintable_of_isHexDigit (hd.hex c hc)
    exact .inl ((Text.Printable.ascii_append (by decide) hdigits).append
      (Text.printable_of_ascii (by decide)))
  | @incomplete width _ _ hw hd hshort =>
    have hwanted := Text.Printable.ascii_append (t := "incomplete escape: expected ") (by decide)
      (Text.printable_ofNat width)
    exact .inl ((hwanted.append (Text.printable_of_ascii (by decide))).append
      (Text.printable_ofNat digits.length))
  | unknown hs hn =>
    by_cases hc : letter.isPrintable
    · exact .inl (EscapeFault.printable_unknown hc)
    · exact .inr ⟨rfl, rfl, hc⟩

end Faults

/-- A message that takes over the letter of an unknown escape, which the diagnostic is about. -/
structure Diagnostic.ShowsLetter (source : Text) (d : Diagnostic) (c : CodePoint) : Prop where
  line : c ≠ '\n'
  slice : source.slice d.span.start.offset d.span.stop.offset = [CodePoint.ofChar '\\', c]
  message : d.message = (EscapeFault.unknown c).message

/-- What is read between two places in a string literal stands between their offsets. -/
theorem Text.slice_literal (before front w rest : Text) :
    let p := (Position.origin.after before).advance '"'
    (before ++ CodePoint.ofChar '"' :: (front ++ (w ++ rest))).slice (p.after front).offset
      (p.after (front ++ w)).offset = w := by
  intro p
  have hoffset (v : Text) : (p.after v).offset = (before ++ CodePoint.ofChar '"' :: v).length := by
    simp only [p, Position.after_offset, Position.advance_offset, Position.origin,
      List.length_append, List.length_cons]
    omega
  have hslice := slice_append (before ++ CodePoint.ofChar '"' :: front) w rest
  rw [hoffset, hoffset]
  simpa only [List.append_assoc, List.cons_append] using hslice

/-- A message about the source text is printable or shows an unprintable letter. -/
theorem Text.printable_message {config : Config} {source : Text} {d : Diagnostic}
    (hd : d ∈ (source.tokenStream config).diagnostics) :
    d.message.Printable ∨ ∃ c, ¬ c.isPrintable ∧ d.ShowsLetter source c := by
  obtain ⟨l, hl, hd⟩ := List.mem_flatMap.1 hd
  obtain ⟨u, c, v, rfl, rfl⟩ := lexemes_scanned _ _ l hl
  rw [Placed.diagnostics] at hd
  cases hlexeme : (Lexeme.scan c v).1 with
  | malformed fault raw =>
    simp only [hlexeme] at hd
    obtain rfl := List.mem_singleton.1 hd
    exact .inl fault.printable_message
  | string pieces =>
    obtain rfl := Lexeme.eq_quote_of_scan hlexeme
    rw [Lexeme.scan_quote] at hlexeme
    obtain ⟨-, hopen⟩ | ⟨_, hstring, hencloses, hdecodes⟩ := Lexeme.scanString_spec v
    · rw [hopen] at hlexeme
      cases hlexeme
    obtain rfl := Lexeme.string.inj (hstring.symm.trans hlexeme)
    rw [Lexeme.scan_quote, hlexeme] at hd
    obtain ⟨front, letter, digits, rest, meaning, fault, hbody, hescape, rfl⟩ :=
      (hdecodes _).exists_escape hd
    obtain hprintable | ⟨rfl, rfl, hletter⟩ := hescape.printable_message
    · exact .inl hprintable
    refine .inr ⟨letter, hletter, ?_, ?_, rfl⟩
    · rintro rfl
      exact hencloses.line (by simp [hbody])
    · obtain ⟨more, hmore⟩ := hencloses.quote
      have hv : v = front ++ ([CodePoint.ofChar '\\', letter] ++
          (rest ++ CodePoint.ofChar '"' :: more)) := by
        rw [← hmore, hbody]
        simp
      rw [hv]
      exact slice_literal u front _ _
  | _ => simp only [hlexeme] at hd; cases hd

theorem Report.printable_message {config : Config} {source : Text} {d : Diagnostic}
    (hd : d ∈ (of config source).diagnostics) :
    d.message.Printable ∨ ∃ c, ¬ c.isPrintable ∧ d.ShowsLetter source c := by
  rw [of_diagnostics, Text.diagnostics, (Diagnostics.sorted_perm _).mem_iff, List.mem_append] at hd
  obtain hd | hd := hd
  · exact Text.printable_message hd
  · obtain ⟨fault, hfault⟩ := Program.syntactic_parse _ _ d hd
    rw [hfault]
    exact .inl fault.printable_message

/-- A message of a report is printable but for the letter of an unknown escape, which it shows as it
stands in the source. -/
theorem Report.unprintable_message_iff {config : Config} {source : Text} {d : Diagnostic}
    (hd : d ∈ (of config source).diagnostics) :
    ¬ d.message.Printable ↔ ∃ c, ¬ c.isPrintable ∧ d.ShowsLetter source c := by
  constructor
  · exact (printable_message hd).resolve_left
  · rintro ⟨c, hc, hletter⟩ hmessage
    exact hc (hmessage c (by simp [hletter.message, EscapeFault.message]))

/-- A control code behind a backslash gets into a message. -/
theorem Report.unprintable_message_controlCode :
    let source : Text := "\"\\\x1b\""
    ∃ d ∈ (of .standard source).diagnostics, ¬ d.message.Printable := by
  intro source
  let d : Diagnostic := .error (EscapeFault.unknown '\x1b').message ⟨⟨1, 2, 1⟩, ⟨1, 4, 3⟩⟩
  have hd : d ∈ (of .standard source).diagnostics := by decide +kernel
  have hletter : d.ShowsLetter source '\x1b' := ⟨by decide, by decide, rfl⟩
  exact ⟨d, hd, (unprintable_message_iff hd).2 ⟨'\x1b', by decide, hletter⟩⟩

end LenSyntax

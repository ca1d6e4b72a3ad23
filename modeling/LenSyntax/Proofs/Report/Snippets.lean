import LenSyntax.Diagnostic.Snippet
import LenSyntax.Proofs.Grammar.Anchoring
import LenSyntax.Proofs.Grammar.Coherence
import LenSyntax.Proofs.Report.Lines
import LenSyntax.Proofs.Text.LineAt
import LenSyntax.Proofs.Token.Scanning

/-! What the carets of a snippet stand under. Columns count a carriage return at the end of a line,
which is not shown, and a span can end on another line or be empty; in all of these cases the carets
stand under what the diagnostic is about, as far as it is shown. -/
namespace LenSyntax

theorem Text.dropFinalReturn_isPrefix (t : Text) : t.dropFinalReturn <+: t := by
  unfold dropFinalReturn
  split
  · exact t.dropLast_prefix
  · exact List.prefix_rfl

/-- A diagnostic without an extent is about the end of the source. -/
structure Diagnostic.Located (source : Text) (d : Diagnostic) : Prop where
  coherent : d.span.Coherent source
  wide : d.span.start.offset < d.span.stop.offset ∨ d.span.start.offset = source.length

theorem Report.located {config : Config} {source : Text} {d : Diagnostic}
    (hd : d ∈ (of config source).diagnostics) : d.Located source := by
  rw [of_diagnostics, Text.diagnostics, (Diagnostics.sorted_perm _).mem_iff, List.mem_append] at hd
  obtain hd | hd := hd
  · refine ⟨Text.coherent_of_mem_diagnostics hd, .inl ?_⟩
    obtain ⟨l, hl, hd⟩ := List.mem_flatMap.1 hd
    have hraw := Text.forall_mem_lexemes (P := fun l => l.raw ≠ []) Lexeme.scan_raw_ne_nil
      .origin source l hl
    exact (Placed.diagnostics_within hraw hd).2
  · refine ⟨(Program.coherent_parse config source).2 d hd, ?_⟩
    obtain hend | ⟨t, ht, hspan⟩ := Program.anchored_parse config _ d hd
    · rw [hend, Program.ending_tokenStream]
      simp [Span.point, Position.origin]
    · rw [hspan]
      exact .inl ((Program.significant_inOrder config source).wide t ht)

/-- The snippet of a diagnostic has five lines, the fourth of which shows the line of the source on
which the diagnostic starts. Below it there are `blanks` blanks and then `carets` carets, and above
these carets stands what the diagnostic is about, as far as that line shows it. -/
structure Diagnostic.Underlined (source filename : Text) (d : Diagnostic) (front line : Text)
    (blanks carets : Nat) : Prop where
  standing : source.LineAt d.span.start.offset front line
  column : d.span.start.column = blanks + 1
  lines :
    let number := Text.ofInt d.span.start.line
    let gutter := Text.spaces (number.length + 1)
    (d.snippet source filename).lines =
      [d.severity.name ++ ": " ++ d.message,
        gutter ++ "--> " ++ filename ++ ":" ++ d.span.start.label,
        gutter ++ "|",
        number ++ " | " ++ line.dropFinalReturn,
        gutter ++ "| " ++ Text.spaces blanks ++ List.replicate carets (CodePoint.ofChar '^')]
  marked : (line.dropFinalReturn.drop blanks).take carets =
    source.slice d.span.start.offset
      (min d.span.stop.offset (front ++ line.dropFinalReturn).length)
  drawn : 0 < carets
  drawn_le : carets ≤ max 1 (d.span.stop.offset - d.span.start.offset)

namespace Diagnostic

/-- No line of a snippet is broken by what it is made of. -/
theorem lines_snippet {source filename : Text} {d : Diagnostic}
    (hline : CodePoint.ofChar '\n' ∉ source.line d.span.start.line)
    (hfilename : CodePoint.ofChar '\n' ∉ filename) (hmessage : CodePoint.ofChar '\n' ∉ d.message) :
    (d.snippet source filename).lines =
      d.snippetLines (source.line d.span.start.line).dropFinalReturn filename := by
  have hshown : CodePoint.ofChar '\n' ∉ (source.line d.span.start.line).dropFinalReturn :=
    fun h => hline ((Text.dropFinalReturn_isPrefix _).subset h)
  have hname := d.severity.printable_name.lineFeed_notMem
  have hnumber := (Text.printable_ofInt d.span.start.line).lineFeed_notMem
  have hlabel := d.span.start.printable_label.lineFeed_notMem
  have hspaces (n : Nat) := (Text.printable_spaces n).lineFeed_notMem
  rw [snippet, snippetOf, shownLine, Text.lineOf_lines]
  refine Text.lines_joinWith (List.cons_ne_nil _ _) ?_
  simp [snippetLines, Text.ofString, hname, hnumber, hlabel, hspaces, hshown, hfilename, hmessage,
    List.mem_replicate]

/-- The carets of a diagnostic reach as far as what it is about is shown, where `start` and `stop`
are how far the diagnostic starts and stops behind the start of its line. -/
theorem Located.caretCount_eq {source front line shown hidden : Text} {d : Diagnostic}
    {start stop : Nat} (h : d.Located source) (hon : d.span.OnLine source front line)
    (hline : shown ++ hidden = line) (hstart : d.span.start.offset = front.length + start)
    (hstop : d.span.stop.offset = front.length + stop) :
    min (d.caretCount shown) (shown.length - start) = min stop shown.length - start ∧
      (d.caretCount shown : Int) ≤ max 1 (d.span.stop.offset - d.span.start.offset) := by
  obtain ⟨behind, hsource, -⟩ := hon.standing.split
  have hwide := h.wide
  have hordered := h.coherent.ordered
  have hcolumn := hon.column_eq
  have hlength := congrArg List.length hsource
  subst hline
  simp only [List.length_append] at hlength
  unfold caretCount
  split
  · next hsame =>
    -- an empty diagnostic is at the end of the source, where nothing is shown behind it
    have hcolumns := hon.length_eq hsame
    omega
  · next hother =>
    have hbehind := hon.lt_stop hother
    simp only [List.length_append] at hbehind
    omega

theorem caretCount_pos (shown : Text) (d : Diagnostic) : 0 < d.caretCount shown := by
  unfold caretCount
  split <;> omega

/-- What stands above the carets is what the diagnostic is about, as far as it is shown. -/
theorem Located.take_caretCount {source front line : Text} {d : Diagnostic} {start stop : Nat}
    (h : d.Located source) (hon : d.span.OnLine source front line)
    (hstart : d.span.start.offset = front.length + start)
    (hstop : d.span.stop.offset = front.length + stop) :
    (line.dropFinalReturn.drop start).take (d.caretCount line.dropFinalReturn) =
      source.slice d.span.start.offset
        (min d.span.stop.offset (front ++ line.dropFinalReturn).length) := by
  obtain ⟨behind, hsource, -⟩ := hon.standing.split
  obtain ⟨hidden, hhidden⟩ := line.dropFinalReturn_isPrefix
  have hmarked := (h.caretCount_eq hon hhidden hstart hstop).1
  have hwhole : source = front ++ (line.dropFinalReturn ++ (hidden ++ behind)) := by
    rw [hsource, ← List.append_assoc line.dropFinalReturn, hhidden]
  have hend : min d.span.stop.offset (front ++ line.dropFinalReturn).length =
      front.length + (min stop line.dropFinalReturn.length : Nat) := by
    rw [hstop, List.length_append]
    omega
  have hslice := Text.slice_of_front front line.dropFinalReturn (hidden ++ behind) start
    (Nat.min_le_right stop line.dropFinalReturn.length)
  rw [← hwhole, ← hstart, ← hend] at hslice
  rw [hslice, List.take_eq_take_iff, List.length_drop, hmarked]
  omega

end Diagnostic

namespace Report

/-- The carets of each snippet stand under what its diagnostic is about. -/
theorem snippet_underlines {config : Config} {source filename : Text} {d : Diagnostic}
    (hd : d ∈ (of config source).diagnostics) (hfilename : CodePoint.ofChar '\n' ∉ filename) :
    ∃ front line blanks carets, d.Underlined source filename front line blanks carets := by
  have hlocated := located hd
  obtain ⟨front, line, hon⟩ := hlocated.coherent.exists_onLine
  have hat := hon.standing
  have hline := hon.line_eq
  obtain ⟨hidden, hhidden⟩ := line.dropFinalReturn_isPrefix
  obtain ⟨start, hstart⟩ := Int.le.dest hat.front_le
  obtain ⟨stop, hstop⟩ := Int.le.dest (Int.le_trans hat.front_le hlocated.coherent.ordered)
  have hcolumn : d.span.start.column = start + 1 := by
    rw [hon.column_eq]
    omega
  have hlines := Diagnostic.lines_snippet (hline.symm ▸ hat.lineFeed) hfilename
    (lineFeed_notMem_message hd)
  have hblanks : (d.span.start.column - 1).toNat = start := by omega
  rw [hline, Diagnostic.snippetLines, hblanks] at hlines
  exact ⟨front, line, start, d.caretCount line.dropFinalReturn, {
    standing := hat
    column := hcolumn
    lines := hlines
    marked := hlocated.take_caretCount hon hstart.symm hstop.symm
    drawn := Diagnostic.caretCount_pos _ d
    drawn_le := (hlocated.caretCount_eq hon hhidden hstart.symm hstop.symm).2 }⟩

/-- An open string takes the carriage return with it, which is not shown. -/
theorem snippet_underlines_carriageReturn :
    let source : Text := "x = \"ab\r\n"
    ∃ d ∈ (of .standard source).diagnostics, d.span.start.offset = 4 ∧ d.span.stop.offset = 8 ∧
      ∃ front line blanks carets,
        d.Underlined source Diagnostic.defaultFilename front line blanks carets := by
  intro source
  let d : Diagnostic := .error LexicalFault.openString.message ⟨⟨1, 5, 4⟩, ⟨1, 9, 8⟩⟩
  have hd : d ∈ (of .standard source).diagnostics := by decide +kernel
  exact ⟨d, hd, rfl, rfl, snippet_underlines hd (by decide)⟩

end Report

end LenSyntax

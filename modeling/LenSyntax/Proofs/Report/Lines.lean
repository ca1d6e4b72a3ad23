import LenSyntax.Proofs.Dump.Program
import LenSyntax.Proofs.Dump.Tokens
import LenSyntax.Proofs.Report.Messages

/-! The lines of a report. No text of a source breaks a line of a dump, so that each token, each
node and each diagnostic has a line of its own. -/
namespace LenSyntax

theorem Text.isPrintable_of_mem_unlines {ts : List Text} (h : ∀ t ∈ ts, t.Printable)
    {c : CodePoint} (hc : c ∈ unlines ts) (hline : c ≠ '\n') : c.isPrintable := by
  obtain ⟨t, ht, hmem⟩ := List.mem_flatMap.1 hc
  obtain hmem | hmem := List.mem_append.1 hmem
  · exact h t ht c hmem
  · exact absurd (List.mem_singleton.1 hmem) hline

theorem Text.lines_unlines_of_printable {ts : List Text} (h : ∀ t ∈ ts, t.Printable) :
    (unlines ts).lines = ts ++ [[]] :=
  lines_unlines fun t ht => (h t ht).lineFeed_notMem

theorem Severity.printable_name (s : Severity) : s.name.Printable := by
  cases s <;> exact Text.printable_of_ascii (by decide)

namespace Report

/-- A message has one line, whatever it shows of the source. -/
theorem lineFeed_notMem_message {config : Config} {source : Text} {d : Diagnostic}
    (hd : d ∈ (of config source).diagnostics) : CodePoint.ofChar '\n' ∉ d.message := by
  obtain hmessage | ⟨c, -, hletter⟩ := printable_message hd
  · exact hmessage.lineFeed_notMem
  · have hc := hletter.line
    rw [hletter.message]
    simpa [EscapeFault.message, Text.ofString] using hc.symm

theorem lineFeed_notMem_brief {config : Config} {source : Text} {d : Diagnostic}
    (hd : d ∈ (of config source).diagnostics) : CodePoint.ofChar '\n' ∉ d.brief := by
  have hplace : (d.span.start.label ++ ": " ++ d.severity.name ++ ": ").Printable :=
    (d.span.start.printable_label.append (Text.printable_of_ascii (by decide))).append
      d.severity.printable_name |>.append (Text.printable_of_ascii (by decide))
  rw [Diagnostic.brief, List.mem_append, not_or]
  exact ⟨hplace.lineFeed_notMem, lineFeed_notMem_message hd⟩

theorem printable_tokenLines (ts : List Token) :
    ∀ line ∈ ts.map Token.dumpLine, line.Printable := by
  intro line hline
  obtain ⟨t, -, rfl⟩ := List.mem_map.1 hline
  exact t.printable_dumpLine

/-- The lines of a tree dump are those of the nodes that a walk meets. -/
theorem exists_treeLines (config : Config) (source : Text) :
    ∃ visits, (Program.parse config (source.tokenStream config).tokens).tree.arena.walk? =
        some visits ∧
      (of config source).treeDump = Text.unlines (visits.map Dump.visit) ∧
      ∀ line ∈ visits.map Dump.visit, line.Printable := by
  have hlegible := Program.legible_parse config config source
  obtain ⟨visits, hwalk, hrows⟩ := SyntaxTree.walk?_arena
    (Program.parse config (source.tokenStream config).tokens).tree
  refine ⟨visits, hwalk, ?_, ?_⟩
  · change (Dump.arena? _).getD [] = _
    rw [Dump.arena?, hwalk]
    rfl
  · have hlines : visits.map Dump.visit = (visits.map (·.row)).map Row.line := by
      rw [List.map_map]
      rfl
    rw [hlines, hrows]
    exact hlegible.printable_lines

/-- Each token, each node of the arena and each diagnostic has one line, and there is nothing else
in the dumps that is unprintable. -/
theorem dump_lines (config : Config) (source : Text) :
    let report := of config source
    let stream := source.tokenStream config
    let arena := (Program.parse config stream.tokens).tree.arena
    report.tokenDump.lines = stream.tokens.map Token.dumpLine ++ [[]] ∧
      (∃ visits, arena.walk? = some visits ∧
        (visits.map (·.index)).Perm (List.range arena.size) ∧
        report.treeDump.lines = visits.map Dump.visit ++ [[]]) ∧
      (Diagnostics.brief report.diagnostics).lines =
        report.diagnostics.map Diagnostic.brief ++ [[]] ∧
      ∀ c ∈ report.tokenDump ++ report.treeDump, c ≠ '\n' → c.isPrintable := by
  intro report stream arena
  have htokens := printable_tokenLines stream.tokens
  obtain ⟨visits, hwalk, htree, hnodes⟩ := exists_treeLines config source
  refine ⟨Text.lines_unlines_of_printable htokens, ⟨visits, hwalk, ?_, ?_⟩, ?_, ?_⟩
  · exact SyntaxTree.perm_walk?_arena hwalk
  · rw [htree]
    exact Text.lines_unlines_of_printable hnodes
  · refine Text.lines_unlines fun line hline => ?_
    obtain ⟨d, hd, rfl⟩ := List.mem_map.1 hline
    exact lineFeed_notMem_brief hd
  · intro c hc hline
    obtain hc | hc := List.mem_append.1 hc
    · exact Text.isPrintable_of_mem_unlines htokens hc hline
    · rw [htree] at hc
      exact Text.isPrintable_of_mem_unlines hnodes hc hline

end Report

end LenSyntax

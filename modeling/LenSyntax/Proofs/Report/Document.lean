import LenSyntax.Proofs.Json.RoundTrip
import LenSyntax.Proofs.Report.Lines
import LenSyntax.Report.Document

/-! Reports as documents. No text of a report holds a surrogate, but for the letter of an unknown
escape, which stands alone; so a report is read back from its document. -/
namespace LenSyntax

namespace Text

theorem unpaired_of_forall {t : Text} (h : ∀ c ∈ t, ¬ c.isSurrogate) : t.Unpaired := by
  refine (List.pairwise_of_forall_mem_list fun c hc d _ => ?_).isChain
  have hnot := h c hc
  simp only [CodePoint.isSurrogate, Bool.and_eq_true, decide_eq_true_eq] at hnot
  simp only [isHighSurrogate, Bool.and_eq_true, decide_eq_true_eq]
  omega

theorem Printable.unpaired {t : Text} (h : t.Printable) : t.Unpaired :=
  unpaired_of_forall fun c hc hsurrogate =>
    CodePoint.not_isPrintable_of_surrogate hsurrogate (h c hc)

/-- Lines are as good as what is on them. -/
theorem unpaired_unlines {ts : List Text} (h : ∀ t ∈ ts, t.Printable) : (unlines ts).Unpaired := by
  refine unpaired_of_forall fun c hc hsurrogate => ?_
  by_cases hline : c = CodePoint.ofChar '\n'
  · subst hline
    exact absurd hsurrogate (by decide)
  · exact CodePoint.not_isPrintable_of_surrogate hsurrogate (isPrintable_of_mem_unlines h hc hline)

end Text

/-- A surrogate that an escape has for its letter stands between quotes. -/
theorem EscapeFault.unpaired_unknown (c : CodePoint) : (unknown c).message.Unpaired := by
  simp [message, Text.Unpaired, Text.ofString, isHighSurrogate, isLowSurrogate]

theorem Position.unpaired_json (p : Position) : p.json.Unpaired :=
  .insert (by decide) (.number p.line) (.insert (by decide) (.number p.column) .empty)

namespace Report
variable {config : Config} {source : Text}

theorem unpaired_message {d : Diagnostic} (hd : d ∈ (of config source).diagnostics) :
    d.message.Unpaired := by
  obtain hmessage | ⟨c, -, hletter⟩ := printable_message hd
  · exact hmessage.unpaired
  · rw [hletter.message]
    exact EscapeFault.unpaired_unknown c

theorem unpaired_diagnostic {d : Diagnostic} (hd : d ∈ (of config source).diagnostics) :
    d.json.Unpaired :=
  .insert (by decide) (.string d.severity.printable_name.unpaired)
    (.insert (by decide) (.string (unpaired_message hd))
      (.insert (by decide) d.span.start.unpaired_json
        (.insert (by decide) d.span.stop.unpaired_json .empty)))

theorem unpaired_tokenDump (config : Config) (source : Text) :
    (of config source).tokenDump.Unpaired :=
  Text.unpaired_unlines (printable_tokenLines (source.tokenStream config).tokens)

theorem unpaired_treeDump (config : Config) (source : Text) :
    (of config source).treeDump.Unpaired := by
  obtain ⟨visits, -, hdump, hlines⟩ := exists_treeLines config source
  rw [hdump]
  exact Text.unpaired_unlines hlines

/-- All entries of the document of a report. -/
def document (r : Report) : List (Text × Json) :=
  [("tokens", .string r.tokenDump), ("ast", .string r.treeDump),
    ("diagnostics", .array (r.diagnostics.map Diagnostic.json))]

/-- Whether an entry of a document is left in it. Only the dumps can be left out. -/
def keeps (withTokens withTree : Bool) (entry : Text × Json) : Bool :=
  if entry.1 = "tokens" then withTokens else if entry.1 = "ast" then withTree else true

theorem json_eq (r : Report) (withTokens withTree : Bool) :
    r.json withTokens withTree = .object (r.document.filter (keeps withTokens withTree)) := by
  cases withTokens <;> cases withTree <;> rfl

theorem unpaired_document (config : Config) (source : Text) :
    (Json.object (of config source).document).Unpaired := by
  have hdiagnostics : (Json.array ((of config source).diagnostics.map Diagnostic.json)).Unpaired :=
    .array (List.forall_mem_map.2 fun d hd => unpaired_diagnostic hd)
  exact .insert (by decide) (.string (unpaired_tokenDump config source))
    (.insert (by decide) (.string (unpaired_treeDump config source))
      (.insert (by decide) hdiagnostics .empty))

/-- Whichever of its entries are asked for, they are read back from the document of a report. -/
theorem read?_document (config : Config) (source : Text) (shown : Text × Json → Bool) :
    let entries := (of config source).document.filter shown
    Json.read? ((Json.object entries).text ++ "\n") = some (.object entries) :=
  Json.read?_text ((unpaired_document config source).filter shown)

end Report

end LenSyntax

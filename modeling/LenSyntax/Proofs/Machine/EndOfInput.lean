import LenSyntax.Proofs.Grammar.Locality
import LenSyntax.Proofs.Machine.Tracking

/-! Only what stands in front of the first end of the input matters, comments apart. The parser with
a cursor holds more than that and looks further ahead than one token, yet nothing behind the end
tells. -/
namespace LenSyntax.Program

open Machine.Cursor (Yields yields_parse)

section Ends
variable {a b : List Token} {e : Token}

theorem significant_of_forall_ne (ha : ∀ t ∈ a, t.kind ≠ .endOfInput) :
    significant a = a.filter (·.kind ≠ .comment) := by
  simpa [significant] using significant_append ha []

theorem significant_append_endOfInput (ha : ∀ t ∈ a, t.kind ≠ .endOfInput)
    (he : e.kind = .endOfInput) (b : List Token) :
    significant (a ++ e :: b) = a.filter (·.kind ≠ .comment) := by
  rw [significant_append ha]
  simp [significant, he]

theorem ending_append_endOfInput (ha : ∀ t ∈ a, t.kind ≠ .endOfInput)
    (he : e.kind = .endOfInput) (b : List Token) : ending (a ++ e :: b) = e.span := by
  simp only [ending, List.filter_append, List.find?_append, find?_endOfInput_eq_none ha,
    Option.none_or]
  simp [he]

theorem ending_of_getLast? (ha : ∀ t ∈ a, t.kind ≠ .endOfInput) {t : Token}
    (ht : (a.filter (·.kind ≠ .comment)).getLast? = some t) : ending a = .point t.span.stop := by
  simp only [ending, find?_endOfInput_eq_none ha, ht]

/-- Of the tokens that are parsed it matters what is seen of them and where they end. -/
theorem parse_congr (config : Config) {ts us : List Token} (hs : significant ts = significant us)
    (he : ending ts = ending us) : parse config ts = parse config us := by
  simp only [parse, hs, he]

end Ends

/-- Only the tokens in front of the first end of the input matter, without the comments, and without
an end of the input it is as if one stood behind the last of them. The parser with a cursor, which
holds all other tokens as well, comes to an end with the same program. -/
theorem parse_append_endOfInput (config : Config) {a : List Token}
    (ha : ∀ t ∈ a, t.kind ≠ .endOfInput) {e : Token} (he : e.kind = .endOfInput)
    (b : List Token) :
    let seen := a.filter (·.kind ≠ .comment)
    ((parse config (a ++ [e] ++ b)).tree.arena = (parse config (seen ++ [e])).tree.arena ∧
        (parse config (a ++ [e] ++ b)).diagnostics = (parse config (seen ++ [e])).diagnostics ∧
        Yields config.maxDepth (a ++ [e] ++ b) (parse config (seen ++ [e]))) ∧
      ∀ t, seen.getLast? = some t →
        let ended := seen ++ [.endAt t.span.stop]
        (parse config a).tree.arena = (parse config ended).tree.arena ∧
          (parse config a).diagnostics = (parse config ended).diagnostics ∧
          Yields config.maxDepth a (parse config ended) := by
  intro seen
  have hseen : ∀ t ∈ seen, t.kind ≠ .endOfInput := fun t ht => ha t (List.mem_filter.1 ht).1
  have hfilter : seen.filter (·.kind ≠ .comment) = seen := by simp [seen]
  refine ⟨?_, fun t ht => ?_⟩
  · have hparse : parse config (a ++ [e] ++ b) = parse config (seen ++ [e]) := by
      rw [← List.append_cons]
      apply parse_congr config
      · rw [significant_append_endOfInput ha he, significant_append_endOfInput hseen he, hfilter]
      · rw [ending_append_endOfInput ha he, ending_append_endOfInput hseen he]
    exact ⟨by rw [hparse], by rw [hparse], hparse ▸ yields_parse config _⟩
  · intro ended
    have hended : (Token.endAt t.span.stop).kind = .endOfInput := rfl
    have hparse : parse config a = parse config ended := by
      apply parse_congr config
      · rw [significant_of_forall_ne ha, significant_append_endOfInput hseen hended, hfilter]
      · rw [ending_of_getLast? ha ht, ending_append_endOfInput hseen hended]
        rfl
    exact ⟨by rw [hparse], by rw [hparse], hparse ▸ yields_parse config _⟩

/-- A colon behind the end of the input does not make a name in front of it that of a field. -/
theorem parse_name_endOfInput_colon :
    let config : Config := .make true 3
    let spot (column : Int) : Span := ⟨⟨1, column, column - 1⟩, ⟨1, column + 1, column⟩⟩
    let a : List Token := [⟨.openBrace, "\x7b", "\x7b", spot 1⟩, ⟨.comment, "#", "#", spot 2⟩,
      ⟨.identifier, "x", "x", spot 3⟩]
    let e : Token := ⟨.endOfInput, [], [], spot 4⟩
    let b : List Token := [⟨.colon, ":", ":", spot 5⟩, ⟨.number, "1", "1", spot 6⟩]
    let seen := a.filter (·.kind ≠ .comment)
    ((∀ t ∈ a, t.kind ≠ .endOfInput) ∧ e.kind = .endOfInput) ∧
      ((parse config (a ++ [e] ++ b)).tree.arena = (parse config (seen ++ [e])).tree.arena ∧
          (parse config (a ++ [e] ++ b)).diagnostics = (parse config (seen ++ [e])).diagnostics ∧
          Yields config.maxDepth (a ++ [e] ++ b) (parse config (seen ++ [e]))) ∧
        ∀ t, seen.getLast? = some t →
          let ended := seen ++ [.endAt t.span.stop]
          (parse config a).tree.arena = (parse config ended).tree.arena ∧
            (parse config a).diagnostics = (parse config ended).diagnostics ∧
            Yields config.maxDepth a (parse config ended) := by
  intro config spot a e b seen
  have ha : ∀ t ∈ a, t.kind ≠ .endOfInput := by decide
  exact ⟨⟨ha, rfl⟩, parse_append_endOfInput config ha rfl b⟩

end LenSyntax.Program

import LenSyntax.Proofs.Token.Order
import LenSyntax.Report.Basic
import Mathlib.Data.List.Basic

/-! Comments leave no trace but their own tokens. The reader drops them or keeps them, and the
parser looks past those that it is given, so neither a tree nor what is wrong with a source depends
on the choice. -/
namespace LenSyntax

/-- Without comments a lexeme makes the token that it makes with them, unless that is a comment. -/
theorem Lexeme.Proper.token?_false {l : Lexeme} (hl : l.Proper) (span : Span) :
    l.token? false span = (l.token? true span).filter (·.kind ≠ .comment) := by
  cases l with
  | word raw =>
    by_cases hraw : raw ∈ keywords
    · simp [token?, hraw, Option.filter_some]
    · simp [token?, hraw, Option.filter_some]
  | symbol kind raw =>
    -- the table of symbols has no entry for comments
    have hkind : kind ≠ .comment := by
      rintro rfl
      exact absurd (symbolKind?_mem hl) (by decide)
    simp [token?, hkind, Option.filter_some]
  | _ => rfl

namespace Text

variable {kept bare : Config}

theorem words_of_drops (hk : kept.keepComments = true) (hb : bare.keepComments = false)
    (source : Text) :
    source.words bare = (source.words kept).filter (·.kind ≠ .comment) := by
  rw [words, words, hk, hb, List.filter_filterMap]
  apply List.filterMap_congr
  intro l hl
  exact (forall_mem_lexemes Lexeme.scan_proper _ _ l hl).token?_false l.span

theorem tokenStream_tokens_of_drops (hk : kept.keepComments = true)
    (hb : bare.keepComments = false) (source : Text) :
    (source.tokenStream bare).tokens =
      (source.tokenStream kept).tokens.filter (·.kind ≠ .comment) := by
  rw [tokenStream_tokens, tokenStream_tokens, List.filter_append, words_of_drops hk hb]
  rfl

end Text

namespace Program

/-- Nothing is seen but what stands in front of the first end of input, without the comments. -/
theorem significant_eq_filter_takeWhile (ts : List Token) :
    significant ts = (ts.takeWhile (·.kind ≠ .endOfInput)).filter (·.kind ≠ .comment) := by
  induction ts with
  | nil => rfl
  | cons t ts ih =>
    rw [significant] at ih ⊢
    by_cases hc : t.kind = .comment
    · simpa [hc] using ih
    · by_cases he : t.kind = .endOfInput
      · simp [he]
      · simpa [hc, he] using ih

theorem significant_filter_comment (ts : List Token) :
    significant (ts.filter (·.kind ≠ .comment)) = significant ts := by
  simp only [significant, List.filter_filter, Bool.and_self]

theorem ending_filter_comment (ts : List Token) :
    ending (ts.filter (·.kind ≠ .comment)) = ending ts := by
  simp only [ending, List.filter_filter, Bool.and_self]

/-- The parser looks past comments: it does with any tokens as it does without their comments. -/
theorem parse_filter_comment (config : Config) (ts : List Token) :
    parse config (ts.filter (·.kind ≠ .comment)) = parse config ts := by
  simp only [parse, significant_filter_comment, ending_filter_comment]

/-- Of a configuration only the depth matters to the parser. -/
theorem parse_eq_of_maxDepth {c d : Config} (h : c.maxDepth = d.maxDepth) (ts : List Token) :
    parse c ts = parse d ts := by
  simp only [parse, h]

end Program

/-- Keeping comments or not, the tokens differ by the comments, and what is wrong with a source and
the nodes of its tree do not differ at all. -/
theorem Report.of_make_false (maxDepth : Int) (source : Text) :
    let kept := Config.make true maxDepth
    let bare := Config.make false maxDepth
    (source.tokenStream bare).tokens =
        (source.tokenStream kept).tokens.filter (·.kind ≠ .comment) ∧
      (source.tokenStream bare).diagnostics = (source.tokenStream kept).diagnostics ∧
      (Program.parse bare (source.tokenStream bare).tokens).tree.arena =
        (Program.parse kept (source.tokenStream kept).tokens).tree.arena ∧
      (Report.of bare source).treeDump = (Report.of kept source).treeDump ∧
      (Report.of bare source).diagnostics = (Report.of kept source).diagnostics := by
  intro kept bare
  have htokens : (source.tokenStream bare).tokens =
      (source.tokenStream kept).tokens.filter (·.kind ≠ .comment) :=
    Text.tokenStream_tokens_of_drops rfl rfl source
  have hparse : Program.parse bare (source.tokenStream bare).tokens =
      Program.parse kept (source.tokenStream kept).tokens := by
    rw [htokens, Program.parse_filter_comment]
    exact Program.parse_eq_of_maxDepth rfl _
  -- what is wrong with a lexeme is found before it is asked whether it makes a token
  have hdiagnostics : (source.tokenStream bare).diagnostics =
      (source.tokenStream kept).diagnostics := rfl
  refine ⟨htokens, hdiagnostics, ?_, ?_, ?_⟩
  · rw [hparse]
  · simp only [of, ofStages, Stages.standard, hparse]
  · simp only [of_diagnostics, Text.diagnostics, hdiagnostics, hparse]

end LenSyntax

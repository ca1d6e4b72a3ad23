import LenSyntax.Proofs.Lexeme.Longest
import LenSyntax.Proofs.Token.Scanning

/-! The longest token. Words, symbols, comments and runs of strays reach as far as they can, and no
two runs of strays touch. -/
namespace LenSyntax

open Number (Longest)

namespace Token

/-- An error that starts neither like a literal nor like a block comment. -/
structure IsStray (t : Token) : Prop where
  kind : t.kind = .error
  head : ∀ c ∈ t.raw.head?, ¬ c.isDigit ∧ c ≠ '"'
  mark : ¬ Text.ofString "/*" <+: t.raw

/-- How far a token reaches in front of the text behind it, by its kind. All kinds that are not
named are those of symbols and punctuation marks. -/
def Munched (keepComments : Bool) (behind : Text) (t : Token) : Prop :=
  match t.kind with
  | .identifier => Longest wordForms (t.raw ++ behind) t.raw ∧ t.raw ∉ keywords
  | .keyword => Longest wordForms (t.raw ++ behind) t.raw ∧ t.raw ∈ keywords
  | .comment => keepComments ∧ Text.Comment behind t.raw
  | .error => t.IsStray → Text.StrayRun behind t.raw
  | .number | .string | .endOfInput => True
  | kind => Text.symbolKind? t.raw = some kind ∧ Longest symbolForms (t.raw ++ behind) t.raw ∧
      ¬ Text.ofString "//" <+: t.raw ++ behind ∧ ¬ Text.ofString "/*" <+: t.raw ++ behind

end Token

namespace Lexeme

/-- A token reaches as far as its lexeme does. -/
theorem Reaches.munched {keepComments : Bool} {span : Span} {rest : Text} {l : Lexeme} {t : Token}
    (hl : l.Reaches rest) (hproper : l.Proper) (h : l.token? keepComments span = some t) :
    t.Munched keepComments rest := by
  cases l with
  | blank => cases h
  | comment raw =>
    simp only [token?] at h
    split at h
    · next hkeep =>
      cases h
      exact ⟨hkeep, hl⟩
    · cases h
  | word raw =>
    cases h
    by_cases hkey : raw ∈ keywords
    · simp only [Token.Munched, if_pos hkey]
      exact ⟨hl, hkey⟩
    · simp only [Token.Munched, if_neg hkey]
      exact ⟨hl, hkey⟩
  | symbol kind raw =>
    cases h
    have hkind : kind ∈ TokenKind.symbol :: punctuation.map (·.2) := symbolKind?_mem hproper
    simp only [punctuation, List.map_cons, List.map_nil, List.mem_cons, List.not_mem_nil,
      or_false] at hkind
    obtain rfl | rfl | rfl | rfl | rfl | rfl | rfl | rfl | rfl | rfl := hkind <;>
      exact ⟨hproper, hl⟩
  | number raw => cases h; trivial
  | string body => cases h; trivial
  | malformed fault raw =>
    cases h
    intro hstray
    refine hl.resolve_right ?_
    rintro (⟨c, hc, hdigit | hquote⟩ | hmark)
    · exact (hstray.head c hc).1 hdigit
    · exact (hstray.head c hc).2 hquote
    · exact hstray.mark hmark

end Lexeme

namespace Text

/-- Each token of a source stands in it where its offsets say, and reaches as far as it can. -/
theorem exists_munched {config : Config} {source : Text} {t : Token}
    (ht : t ∈ (source.tokenStream config).tokens) :
    ∃ before behind, source = before ++ (t.raw ++ behind) ∧ t.span.start.offset = before.length ∧
      t.span.stop.offset = (before ++ t.raw).length ∧ t.Munched config.keepComments behind := by
  rw [tokenStream_tokens, List.mem_append, List.mem_singleton] at ht
  obtain ht | rfl := ht
  · obtain ⟨l, hl, hproper, hspan, htoken⟩ := exists_lexeme ht
    obtain ⟨before, c, rest, hsource, rfl⟩ := lexemes_scanned _ _ l hl
    have hraw : t.raw = (Lexeme.scan c rest).1.raw := Lexeme.token?_raw htoken
    refine ⟨before, (Lexeme.scan c rest).2, ?_, ?_, ?_, ?_⟩
    · rw [hsource, hraw, Lexeme.scan_append]
    · simp [hspan, Placed.span, Position.origin]
    · simp [hspan, Placed.span, Position.origin, hraw]
    · exact (Lexeme.scan_reaches c rest).munched hproper htoken
  · refine ⟨source, [], by simp [Token.endAt], ?_, ?_, trivial⟩ <;>
      simp [Token.endAt, Span.point, Position.origin]

/-- Each token of a source reaches as far as it can: words up to the first code point that does not
go on with them, symbols and punctuation marks over the longest entry of the tables, comments up to
their end, and errors that are neither literals nor comments up to the first place at which
something starts, so that no two of these touch. -/
theorem tokenStream_longest (config : Config) (source : Text) :
    let tokens := (source.tokenStream config).tokens
    (∀ t ∈ tokens, ∃ before behind, source = before ++ (t.raw ++ behind) ∧
        t.span.start.offset = before.length ∧ t.span.stop.offset = (before ++ t.raw).length ∧
        t.Munched config.keepComments behind) ∧
      ∀ t ∈ tokens, ∀ u ∈ tokens, t.IsStray → u.IsStray →
        t.span.stop.offset ≠ u.span.start.offset := by
  intro tokens
  refine ⟨fun t ht => exists_munched ht, ?_⟩
  intro t ht u hu hstray hother htouch
  have hrun {v : Token} {behind : Text} (hv : v.IsStray)
      (h : v.Munched config.keepComments behind) : StrayRun behind v.raw := by
    simp only [Token.Munched, hv.kind] at h
    exact h hv
  obtain ⟨before, behind, hsource, -, hstop, hmunched⟩ := exists_munched ht
  obtain ⟨front, back, hsource', hstart, -, hmunched'⟩ := exists_munched hu
  -- behind the first run stands the second one, at which nothing starts
  have hbehind : behind = u.raw ++ back := by
    rw [← List.append_assoc, hsource'] at hsource
    exact (List.append_inj_right hsource (by omega)).symm
  have hfirst := hrun hstray hmunched
  have hsecond := hrun hother hmunched'
  obtain hnil | hstarts := hfirst.ends
  · exact hsecond.ne_nil (List.append_eq_nil_iff.1 (hbehind.symm.trans hnil)).1
  · exact hsecond.stray [] u.raw rfl hsecond.ne_nil (hbehind ▸ hstarts)

end Text

end LenSyntax

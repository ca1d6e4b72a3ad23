import LenSyntax.Grammar.Program
import LenSyntax.Token.Stream

/-! The tokens of a source stand one behind the other, none of them is empty, and only the last one
ends the input. -/
namespace LenSyntax

/-- Tokens that stand one behind the other in front of an end; none of them is empty. -/
structure InOrder (ts : List Token) (ending : Position) : Prop where
  apart : ts.Pairwise fun t u => t.span.stop.offset ≤ u.span.start.offset
  wide : ∀ t ∈ ts, t.span.start.offset < t.span.stop.offset
  stop_le : ∀ t ∈ ts, t.span.stop.offset ≤ ending.offset

theorem InOrder.sublist {ts us : List Token} {ending : Position} (h : InOrder ts ending)
    (hs : us.Sublist ts) : InOrder us ending :=
  ⟨h.apart.sublist hs, fun t ht => h.wide t (hs.subset ht), fun t ht => h.stop_le t (hs.subset ht)⟩

namespace Placed

theorem span_stop_offset (l : Placed) :
    l.span.stop.offset = l.start.offset + l.lexeme.raw.length := by simp [span]

end Placed

/-- Whatever holds of every lexeme that can be scanned holds of all lexemes of a text. -/
theorem Text.forall_mem_lexemes {P : Lexeme → Prop} (h : ∀ c t, P (Lexeme.scan c t).1)
    (p : Position) (t : Text) : ∀ l ∈ lexemes p t, P l.lexeme := by
  match t with
  | [] => simp
  | c :: t =>
    rw [lexemes_cons]
    intro l hl
    obtain rfl | hl := List.mem_cons.1 hl
    · exact h c t
    · exact forall_mem_lexemes h _ _ l hl
  termination_by t.length
  decreasing_by exact Lexeme.scan_length_lt c t

theorem Text.lexemes_wide (p : Position) (t : Text) :
    ∀ l ∈ lexemes p t, l.span.start.offset < l.span.stop.offset := by
  intro l hl
  have hraw := forall_mem_lexemes (P := fun l => l.raw ≠ []) Lexeme.scan_raw_ne_nil p t l hl
  have hlen := List.length_pos_iff.2 hraw
  rw [l.span_stop_offset]
  change l.start.offset < _
  omega

/-- The lexemes of a text stand between its two ends. -/
theorem Text.lexemes_between (p : Position) (t : Text) :
    ∀ l ∈ lexemes p t, p.offset ≤ l.span.start.offset ∧
      l.span.stop.offset ≤ p.offset + t.length := by
  match t with
  | [] => simp
  | c :: t =>
    have hlen := congrArg List.length (Lexeme.scan_append c t)
    rw [List.length_append] at hlen
    rw [lexemes_cons]
    intro l hl
    obtain rfl | hl := List.mem_cons.1 hl
    · refine ⟨Int.le_refl _, ?_⟩
      rw [Placed.span_stop_offset]
      simp only
      omega
    · have h := lexemes_between _ _ l hl
      rw [Position.after_offset] at h
      omega
  termination_by t.length
  decreasing_by exact Lexeme.scan_length_lt c t

theorem Text.lexemes_apart (p : Position) (t : Text) :
    (lexemes p t).Pairwise fun l m => l.span.stop.offset ≤ m.span.start.offset := by
  match t with
  | [] => simp
  | c :: t =>
    rw [lexemes_cons, List.pairwise_cons]
    refine ⟨?_, lexemes_apart _ _⟩
    intro l hl
    exact (lexemes_between _ _ l hl).1
  termination_by t.length
  decreasing_by exact Lexeme.scan_length_lt c t

namespace Lexeme

theorem token?_span {keepComments : Bool} {span : Span} {l : Lexeme} {t : Token}
    (h : l.token? keepComments span = some t) : t.span = span := by
  cases l with
  | blank => cases h
  | comment raw =>
    simp only [token?] at h
    split at h <;> cases h
    rfl
  | _ => cases h; rfl

/-- Whether a lexeme could be scanned: a symbol has the kind that its text stands for. -/
def Proper : Lexeme → Prop
  | symbol kind raw => Text.symbolKind? raw = some kind
  | _ => True

theorem scan_proper (c : CodePoint) (t : Text) : (scan c t).1.Proper := by
  unfold scan
  split
  · trivial
  split
  · trivial
  split
  · simp only [scanBlock]
    split <;> trivial
  split
  · unfold scanString
    split <;> trivial
  split
  · unfold scanNumber
    split <;> trivial
  split
  · trivial
  split
  · next h => exact Text.symbol?_kind h
  · trivial

theorem symbolKind?_mem {raw : Text} {kind : TokenKind} (h : Text.symbolKind? raw = some kind) :
    kind ∈ TokenKind.symbol :: punctuation.map (·.2) := by
  unfold Text.symbolKind? at h
  split at h
  · cases h
    exact List.mem_cons_self
  · obtain ⟨l, r, hl, -⟩ := List.lookup_eq_some_iff.1 h
    refine List.mem_cons_of_mem _ (List.mem_map.2 ⟨(raw, kind), ?_, rfl⟩)
    rw [hl]
    simp

/-- A lexeme does not end the input, and only a malformed one makes an error token. -/
theorem Proper.token?_kind {keepComments : Bool} {span : Span} {l : Lexeme} {t : Token}
    (hl : l.Proper) (h : l.token? keepComments span = some t) :
    t.kind ≠ .endOfInput ∧ (t.kind = .error → ∃ fault, l = .malformed fault t.raw) := by
  cases l with
  | blank => cases h
  | comment raw =>
    simp only [token?] at h
    split at h <;> cases h
    simp
  | word raw =>
    cases h
    simp only
    split <;> simp
  | symbol kind raw =>
    cases h
    have hk := symbolKind?_mem hl
    simp only
    constructor
    · rintro rfl
      exact absurd hk (by decide)
    · rintro rfl
      exact absurd hk (by decide)
  | number raw => cases h; simp
  | string body => cases h; simp
  | malformed fault raw => cases h; simp

end Lexeme

/-- The tokens of a source, without the one that ends it. -/
def Text.words (config : Config) (source : Text) : List Token :=
  (source.lexemes .origin).filterMap (·.token? config.keepComments)

theorem Text.tokenStream_tokens (config : Config) (source : Text) :
    (source.tokenStream config).tokens =
      source.words config ++ [.endAt (Position.origin.after source)] := rfl

/-- Each token of a source comes from one of its lexemes. -/
theorem Text.exists_lexeme {config : Config} {source : Text} {t : Token}
    (ht : t ∈ source.words config) :
    ∃ l ∈ source.lexemes .origin, l.lexeme.Proper ∧ t.span = l.span ∧
      l.token? config.keepComments = some t := by
  obtain ⟨l, hl, h⟩ := List.mem_filterMap.1 ht
  exact ⟨l, hl, forall_mem_lexemes Lexeme.scan_proper _ _ l hl, Lexeme.token?_span h, h⟩

theorem Text.words_kind_ne_endOfInput {config : Config} {source : Text} {t : Token}
    (ht : t ∈ source.words config) : t.kind ≠ .endOfInput := by
  obtain ⟨l, -, hl, -, h⟩ := exists_lexeme ht
  exact (hl.token?_kind h).1

theorem Text.words_inOrder (config : Config) (source : Text) :
    InOrder (source.words config) (Position.origin.after source) where
  apart := by
    refine List.Pairwise.filterMap _ ?_ (lexemes_apart .origin source)
    intro l m h t ht u hu
    rwa [Lexeme.token?_span ht, Lexeme.token?_span hu]
  wide t ht := by
    obtain ⟨l, hl, -, hs, -⟩ := exists_lexeme ht
    rw [hs]
    exact lexemes_wide _ _ l hl
  stop_le t ht := by
    obtain ⟨l, hl, -, hs, -⟩ := exists_lexeme ht
    rw [hs, Position.after_offset]
    exact (lexemes_between _ _ l hl).2

namespace Program

/-- Of the tokens of a source the parser sees all but the comments and the end of the input. -/
theorem significant_tokenStream (config : Config) (source : Text) :
    significant (source.tokenStream config).tokens =
      (source.words config).filter (·.kind ≠ .comment) := by
  have hall : ∀ t ∈ (source.words config).filter (·.kind ≠ .comment), t.kind ≠ .endOfInput :=
    fun t ht => Text.words_kind_ne_endOfInput (List.mem_filter.1 ht).1
  rw [significant, Text.tokenStream_tokens, List.filter_append,
    List.takeWhile_append_of_pos (by simpa using hall)]
  simp [Token.endAt]

theorem significant_eq_filter (config : Config) (source : Text) :
    significant (source.tokenStream config).tokens =
      (source.tokenStream config).tokens.filter
        fun t => t.kind ≠ .comment && t.kind ≠ .endOfInput := by
  rw [significant_tokenStream, Text.tokenStream_tokens, List.filter_append]
  have hone : [Token.endAt (Position.origin.after source)].filter
      (fun t => t.kind ≠ .comment && t.kind ≠ .endOfInput) = [] := rfl
  rw [hone, List.append_nil]
  apply List.filter_congr
  intro t ht
  simp [Text.words_kind_ne_endOfInput ht]

theorem significant_inOrder (config : Config) (source : Text) :
    InOrder (significant (source.tokenStream config).tokens) (Position.origin.after source) := by
  rw [significant_tokenStream]
  exact (Text.words_inOrder config source).sublist List.filter_sublist

theorem ending_tokenStream (config : Config) (source : Text) :
    ending (source.tokenStream config).tokens = .point (Position.origin.after source) := by
  have hnone : ((source.words config).filter (·.kind ≠ .comment)).find?
      (·.kind = .endOfInput) = none := by
    simpa using fun t ht _ => Text.words_kind_ne_endOfInput ht
  simp only [ending, Text.tokenStream_tokens, List.filter_append, List.find?_append, hnone,
    Option.none_or]
  simp [Token.endAt]

end Program

end LenSyntax

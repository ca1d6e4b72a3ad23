import LenSyntax.Proofs.Lexeme.Decoding
import LenSyntax.Proofs.Token.Scanning
import LenSyntax.Proofs.Token.Tiling
import Mathlib.Data.List.Pairwise

/-! Whose fault it is. Each error token is complained about once, over its whole text, and all else
that is complained about are escapes inside of string tokens; the complaints stand one behind the
other as the tokens do. -/
namespace LenSyntax

/-- `t.HoldsEscape d`: the diagnostic `d` starts at a backslash behind the opening quote of the
string `t`, and ends in front of the closing quote. -/
structure Token.HoldsEscape (t : Token) (d : Diagnostic) : Prop where
  kind : t.kind = .string
  quoted : ∃ body, t.raw = CodePoint.ofChar '"' :: (body ++ [CodePoint.ofChar '"'])
  behind : t.span.start.offset < d.span.start.offset
  backslash : t.raw[(d.span.start.offset - t.span.start.offset).toNat]? =
    some (CodePoint.ofChar '\\')
  wide : d.span.start.offset < d.span.stop.offset
  front : d.span.stop.offset < t.span.stop.offset

/-- Only a backslash starts what is wrong with a piece. -/
theorem Piece.exists_raw_of_fault {piece : Piece} {fault : EscapeFault}
    (h : piece.fault? = some fault) : ∃ t, piece.raw = CodePoint.ofChar '\\' :: t := by
  cases piece with
  | plain c => cases h
  | simple letter meaning => cases h
  | numeric letter width digits => exact ⟨_, rfl⟩
  | unknown c => exact ⟨_, rfl⟩

namespace Lexeme

/-- Bad escapes of a body are found one behind the other. -/
theorem bodyDiagnostics_apart (p : Position) (body : List Piece) :
    (bodyDiagnostics p body).Pairwise fun d e => d.span.start.offset < e.span.start.offset ∧
      d.span.stop.offset ≤ e.span.start.offset := by
  induction body generalizing p with
  | nil => exact .nil
  | cons piece body ih =>
    have hpos := piece.raw_length_pos
    rw [Literal.bodyDiagnostics_cons, List.pairwise_append]
    refine ⟨?_, ih _, ?_⟩
    · cases piece.fault? <;> simp
    · intro d hd e he
      obtain ⟨fault, -, rfl⟩ := List.mem_map.1 hd
      have hbetween := bodyDiagnostics_between _ body e he
      simp only [Position.after_offset] at hbetween
      simp only [Diagnostic.error, Position.after_offset]
      omega

/-- Each bad escape of a body starts at a backslash. -/
theorem exists_backslash {p : Position} {body : List Piece} {d : Diagnostic}
    (hd : d ∈ bodyDiagnostics p body) :
    ∃ front rest, body.flatMap Piece.raw = front ++ CodePoint.ofChar '\\' :: rest ∧
      d.span.start.offset = p.offset + front.length := by
  induction body generalizing p with
  | nil => cases hd
  | cons piece body ih =>
    rw [Literal.bodyDiagnostics_cons] at hd
    obtain hown | hmore := List.mem_append.1 hd
    · obtain ⟨fault, hfault, rfl⟩ := List.mem_map.1 hown
      obtain ⟨t, hraw⟩ := Piece.exists_raw_of_fault (Option.mem_toList.1 hfault)
      exact ⟨[], t ++ body.flatMap Piece.raw, by simp [hraw], by simp [Diagnostic.error]⟩
    · obtain ⟨front, rest, hbody, hstart⟩ := ih hmore
      refine ⟨piece.raw ++ front, rest, by simp [hbody], ?_⟩
      rw [hstart, Position.after_offset, List.length_append]
      omega

end Lexeme

namespace Placed

/-- What is wrong with a lexeme stands one behind the other. -/
theorem diagnostics_apart (l : Placed) :
    l.diagnostics.Pairwise fun d e => d.span.start.offset < e.span.start.offset ∧
      d.span.stop.offset ≤ e.span.start.offset := by
  obtain ⟨start, lexeme⟩ := l
  cases lexeme with
  | string body => exact Lexeme.bodyDiagnostics_apart _ body
  | malformed fault raw => exact List.pairwise_singleton _ _
  | _ => exact .nil

/-- A lexeme about which something is wrong makes an error or holds the escape. -/
theorem exists_token_of_diagnostic {l : Placed} {d : Diagnostic} (hd : d ∈ l.diagnostics)
    (keepComments : Bool) :
    ∃ t, l.token? keepComments = some t ∧
      ((t.kind = .error ∧ d.span = t.span) ∨ t.HoldsEscape d) := by
  obtain ⟨start, lexeme⟩ := l
  cases lexeme with
  | string body =>
    refine ⟨_, rfl, .inr ?_⟩
    obtain ⟨front, rest, hbody, hstart⟩ := Lexeme.exists_backslash hd
    have hbetween := Lexeme.bodyDiagnostics_between _ body d hd
    simp only [Position.advance_offset] at hstart hbetween
    have hindex : (d.span.start.offset - start.offset).toNat = front.length + 1 := by omega
    constructor
    · rfl
    · exact ⟨_, rfl⟩
    · simp only [span]
      omega
    · simp [Lexeme.raw, span, hindex, hbody]
    · exact hbetween.2.1
    · have hquote : (Text.ofString "\"").length = 1 := rfl
      simp only [span, Position.after_offset, Lexeme.raw, List.length_cons, List.length_append,
        hquote]
      omega
  | malformed fault raw =>
    obtain rfl := List.mem_singleton.1 hd
    exact ⟨_, rfl, .inl ⟨rfl, rfl⟩⟩
  | _ => cases hd

end Placed

namespace Text
variable {config : Config} {source : Text}

theorem diagnostics_apart (config : Config) (source : Text) :
    (source.tokenStream config).diagnostics.Pairwise fun d e =>
      d.span.start.offset < e.span.start.offset ∧ d.span.stop.offset ≤ e.span.start.offset := by
  have hraw := forall_mem_lexemes (P := fun l => l.raw ≠ []) Lexeme.scan_raw_ne_nil .origin source
  refine List.pairwise_flatMap.2 ⟨fun l _ => l.diagnostics_apart, ?_⟩
  refine (lexemes_apart .origin source).imp_of_mem ?_
  intro l m hl hm hapart d hd e he
  obtain ⟨hwithin, hwide⟩ := Placed.diagnostics_within (hraw l hl) hd
  have hwithin' := (Placed.diagnostics_within (hraw m hm) he).1
  rw [Span.Within] at hwithin hwithin'
  omega

/-- Whichever of two tokens comes first, it ends in front of the other one. -/
theorem tokens_apart {t u : Token} (ht : t ∈ (source.tokenStream config).tokens)
    (hu : u ∈ (source.tokenStream config).tokens) (hne : t ≠ u) :
    t.span.stop.offset ≤ u.span.start.offset ∨ u.span.stop.offset ≤ t.span.start.offset := by
  let Apart (t u : Token) : Prop := t.span.stop.offset ≤ u.span.start.offset ∨
    u.span.stop.offset ≤ t.span.start.offset
  have : Std.Symm Apart := ⟨fun _ _ => Or.symm⟩
  have hapart : (source.tokenStream config).tokens.Pairwise Apart :=
    (source.tiling_words config).apart.imp Or.inl
  exact hapart.forall ht hu hne

/-- No two string tokens hold one escape. -/
theorem holdsEscape_unique {t u : Token} {d : Diagnostic}
    (ht : t ∈ (source.tokenStream config).tokens) (hu : u ∈ (source.tokenStream config).tokens)
    (h : t.HoldsEscape d) (h' : u.HoldsEscape d) : t = u := by
  by_contra hne
  have hapart := tokens_apart ht hu hne
  have hbehind := h.behind
  have hbehind' := h'.behind
  have hfront := h.front
  have hfront' := h'.front
  have hwide := h.wide
  omega

/-- The diagnostics of a source stand one behind the other. Each error token has exactly one, over
its own text, and none else is inside it; every other one is about an escape inside of exactly one
string token. -/
theorem tokenStream_diagnosed (config : Config) (source : Text) :
    let stream := source.tokenStream config
    (stream.diagnostics.Pairwise fun d e => d.span.start.offset < e.span.start.offset ∧
        d.span.stop.offset ≤ e.span.start.offset) ∧
      (∀ t ∈ stream.tokens, t.kind = .error →
        ∃ d, d.span = t.span ∧ stream.complaints t = [d]) ∧
      ∀ d ∈ stream.diagnostics, (∃ t ∈ stream.tokens, t.kind = .error ∧ d.span = t.span) ∨
        ∃! t, t ∈ stream.tokens ∧ t.HoldsEscape d := by
  intro stream
  refine ⟨diagnostics_apart config source, ?_, ?_⟩
  · intro t ht hkind
    rw [tokenStream_tokens, List.mem_append, List.mem_singleton] at ht
    obtain ht | rfl := ht
    · obtain ⟨l, hl, hproper, hspan, htoken⟩ := exists_lexeme ht
      obtain ⟨fault, hlexeme⟩ := (hproper.token?_kind htoken).2 hkind
      have hcomplaints : stream.complaints t = l.diagnostics := by
        rw [TokenStream.complaints, hspan]
        exact filter_diagnostics_within hl
      refine ⟨.error fault.message t.span, rfl, ?_⟩
      rw [hcomplaints, Placed.diagnostics, hlexeme, hspan, Placed.span, hlexeme]
      rfl
    · cases hkind
  · intro d hd
    obtain ⟨l, hl, hd⟩ := List.mem_flatMap.1 hd
    obtain ⟨t, htoken, h⟩ := Placed.exists_token_of_diagnostic hd config.keepComments
    have ht : t ∈ stream.tokens := by
      rw [tokenStream_tokens]
      exact List.mem_append_left _ (List.mem_filterMap.2 ⟨l, hl, htoken⟩)
    obtain herror | hescape := h
    · exact .inl ⟨t, ht, herror⟩
    · exact .inr ⟨t, ⟨ht, hescape⟩, fun u hu => holdsEscape_unique hu.1 ht hu.2 hescape⟩

end Text

end LenSyntax

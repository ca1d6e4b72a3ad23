import LenSyntax.Proofs.Lexeme.Locality
import LenSyntax.Proofs.Token.Order

/-! A text that goes on keeps what is finished: all its lexemes but the last one stay as they are,
and so do their tokens and what is wrong with them. -/
namespace LenSyntax

/-- One range lies inside another one. -/
def Span.Within (s outer : Span) : Prop :=
  outer.start.offset ≤ s.start.offset ∧ s.stop.offset ≤ outer.stop.offset

instance (s outer : Span) : Decidable (s.Within outer) :=
  inferInstanceAs (Decidable (outer.start.offset ≤ s.start.offset ∧ _))

namespace Lexeme

/-- Diagnostics of a body lie between its ends, and none of them is empty. -/
theorem bodyDiagnostics_between (p : Position) (body : List Piece) :
    ∀ d ∈ bodyDiagnostics p body, p.offset ≤ d.span.start.offset ∧
      d.span.start.offset < d.span.stop.offset ∧
      d.span.stop.offset ≤ p.offset + (body.flatMap Piece.raw).length := by
  induction body generalizing p with
  | nil => simp [bodyDiagnostics]
  | cons piece body ih =>
    have hpos := piece.raw_length_pos
    have hmore := ih (p.after piece.raw)
    simp only [Position.after_offset] at hmore
    rw [bodyDiagnostics, List.flatMap_cons, List.length_append]
    intro d hd
    split at hd
    · have h := hmore d hd
      omega
    · obtain rfl | hd := List.mem_cons.1 hd
      · simp only [Diagnostic.error, Position.after_offset]
        omega
      · have h := hmore d hd
        omega

end Lexeme

namespace Placed

/-- What is wrong with a lexeme lies inside it. -/
theorem diagnostics_within {l : Placed} (hl : l.lexeme.raw ≠ []) {d : Diagnostic}
    (hd : d ∈ l.diagnostics) :
    d.span.Within l.span ∧ d.span.start.offset < d.span.stop.offset := by
  have hpos := List.length_pos_iff.2 hl
  have hstop := l.span_stop_offset
  have hstart : l.span.start = l.start := rfl
  rw [Span.Within, hstart, hstop]
  obtain ⟨start, lexeme⟩ := l
  cases lexeme with
  | string body =>
    have hbetween := Lexeme.bodyDiagnostics_between _ body d hd
    simp only [Position.advance_offset] at hbetween
    simp only [Lexeme.raw, List.length_cons, List.length_append]
    omega
  | malformed fault raw =>
    obtain rfl := List.mem_singleton.1 hd
    simp only [Lexeme.raw] at hpos
    simp only [Diagnostic.error, Position.after_offset, Lexeme.raw]
    omega
  | _ => cases hd

/-- A lexeme with which something is wrong makes a token. -/
theorem exists_token_of_mem_diagnostics {l : Placed} {d : Diagnostic} (hd : d ∈ l.diagnostics)
    (keepComments : Bool) : ∃ t, l.token? keepComments = some t ∧ t.span = l.span := by
  obtain ⟨start, lexeme⟩ := l
  cases lexeme with
  | string body => exact ⟨_, rfl, rfl⟩
  | malformed fault raw => exact ⟨_, rfl, rfl⟩
  | _ => cases hd

end Placed

namespace Text

/-- A longer text starts with the lexemes of a text but for the last one. -/
theorem dropLast_lexemes_prefix (p : Position) (s t : Text) :
    (s.lexemes p).dropLast <+: (s ++ t).lexemes p := by
  match s with
  | [] => simp
  | c :: s =>
    rw [List.cons_append, lexemes_cons, lexemes_cons]
    cases hrest : (Lexeme.scan c s).2 with
    | nil => simp
    | cons d rest =>
      have hne : (Lexeme.scan c s).2 ≠ [] := by simp [hrest]
      have ih := dropLast_lexemes_prefix (p.after (Lexeme.scan c s).1.raw) (Lexeme.scan c s).2 t
      rw [Lexeme.scan_append_of_ne_nil hne, ← hrest, List.dropLast_cons_of_ne_nil ?_,
        List.cons_prefix_cons]
      · exact ⟨rfl, ih⟩
      · rw [hrest, lexemes_cons]
        exact List.cons_ne_nil _ _
  termination_by s.length
  decreasing_by exact Lexeme.scan_length_lt c s

/-- Of the lexemes of a text only the last one reaches to its end. -/
theorem filter_lexemes_eq_dropLast (p : Position) (s : Text) :
    (s.lexemes p).filter (·.span.stop.offset < p.offset + s.length) = (s.lexemes p).dropLast := by
  match s with
  | [] => simp
  | c :: s =>
    have hlength := congrArg List.length (Lexeme.scan_append c s)
    rw [List.length_append] at hlength
    have hbound : (p.after (Lexeme.scan c s).1.raw).offset + (Lexeme.scan c s).2.length =
        p.offset + (c :: s).length := by
      rw [Position.after_offset]
      omega
    have ih := filter_lexemes_eq_dropLast (p.after (Lexeme.scan c s).1.raw) (Lexeme.scan c s).2
    rw [hbound] at ih
    rw [lexemes_cons, List.filter_cons, Placed.span_stop_offset, ih]
    cases hrest : (Lexeme.scan c s).2 with
    | nil =>
      rw [hrest, List.length_nil] at hlength
      rw [if_neg (by simp only [decide_eq_true_eq]; omega), lexemes_nil]
      rfl
    | cons d rest =>
      rw [hrest, List.length_cons] at hlength
      rw [if_pos (by simp only [decide_eq_true_eq]; omega), List.dropLast_cons_of_ne_nil]
      rw [lexemes_cons]
      exact List.cons_ne_nil _ _
  termination_by s.length
  decreasing_by exact Lexeme.scan_length_lt c s

theorem filter_finished_tokens (config : Config) (s : Text) :
    (s.tokenStream config).tokens.filter (·.span.stop.offset < (s.length : Int)) =
      (s.lexemes .origin).dropLast.filterMap (·.token? config.keepComments) := by
  have hend : [Token.endAt (Position.origin.after s)].filter
      (fun t => t.span.stop.offset < (s.length : Int)) = [] := by
    simp [Token.endAt, Span.point, Position.origin]
  have hfinished := filter_lexemes_eq_dropLast .origin s
  rw [tokenStream_tokens, List.filter_append, hend, List.append_nil, ← hfinished, words,
    List.filter_filterMap, List.filterMap_filter]
  refine List.filterMap_congr fun l _ => ?_
  cases htoken : l.token? config.keepComments with
  | none => simp
  | some t =>
    rw [← Lexeme.token?_span htoken]
    simp [Option.filter, Position.origin]

/-- The diagnostics inside finished tokens are those of the finished lexemes. -/
theorem filter_finished_diagnostics (config : Config) (s : Text) :
    let finished := (s.lexemes .origin).dropLast.filterMap (·.token? config.keepComments)
    (s.tokenStream config).diagnostics.filter (fun d => ∃ u ∈ finished, d.span.Within u.span) =
      (s.lexemes .origin).dropLast.flatMap (·.diagnostics) := by
  intro finished
  have hraw := forall_mem_lexemes (P := fun l => l.raw ≠ []) Lexeme.scan_raw_ne_nil .origin s
  have hapart := lexemes_apart .origin s
  obtain hlexemes | ⟨front, last, hlexemes⟩ := List.eq_nil_or_concat' (s.lexemes .origin)
  · simp [tokenStream, hlexemes]
  rw [hlexemes] at hraw hapart
  simp only [finished, tokenStream, hlexemes, List.dropLast_concat, List.flatMap_append,
    List.filter_append]
  have hfront : ∀ d ∈ front.flatMap (·.diagnostics),
      ∃ u ∈ front.filterMap (·.token? config.keepComments), d.span.Within u.span := by
    intro d hd
    obtain ⟨l, hl, hd⟩ := List.mem_flatMap.1 hd
    obtain ⟨u, hu, hspan⟩ := Placed.exists_token_of_mem_diagnostics hd config.keepComments
    refine ⟨u, List.mem_filterMap.2 ⟨l, hl, hu⟩, ?_⟩
    rw [hspan]
    exact (Placed.diagnostics_within (hraw l (List.mem_append_left _ hl)) hd).1
  have hlast : ∀ d ∈ [last].flatMap (·.diagnostics),
      ¬ ∃ u ∈ front.filterMap (·.token? config.keepComments), d.span.Within u.span := by
    rintro d hd ⟨u, hu, hwithin⟩
    rw [List.flatMap_singleton] at hd
    obtain ⟨l, hl, hu⟩ := List.mem_filterMap.1 hu
    have hbehind := (List.pairwise_append.1 hapart).2.2 l hl last (List.mem_singleton.2 rfl)
    obtain ⟨hinside, hwide⟩ := Placed.diagnostics_within (hraw last (by simp)) hd
    rw [Span.Within, Lexeme.token?_span hu] at hwithin
    rw [Span.Within] at hinside
    omega
  rw [List.filter_eq_self.2 (by simpa using hfront),
    List.filter_eq_nil_iff.2 (by simpa using hlast), List.append_nil]

/-- What is finished before the end of a text stays when the text goes on: the tokens that end there
come first among its tokens, and what is wrong inside them comes first among its diagnostics. -/
theorem tokenStream_append_finished (config : Config) (s t : Text) :
    let stream := s.tokenStream config
    let longer := (s ++ t).tokenStream config
    let finished := stream.tokens.filter (·.span.stop.offset < (s.length : Int))
    finished <+: longer.tokens ∧
      stream.diagnostics.filter (fun d => ∃ u ∈ finished, d.span.Within u.span) <+:
        longer.diagnostics := by
  intro stream longer finished
  obtain ⟨more, hmore⟩ := dropLast_lexemes_prefix .origin s t
  have hfinished : finished = _ := filter_finished_tokens config s
  have htokens : longer.tokens = _ := tokenStream_tokens config (s ++ t)
  have hdiagnostics : longer.diagnostics =
      ((s ++ t).lexemes .origin).flatMap (·.diagnostics) := rfl
  rw [words, ← hmore, List.filterMap_append, List.append_assoc] at htokens
  rw [← hmore, List.flatMap_append] at hdiagnostics
  rw [hfinished, htokens, hdiagnostics, filter_finished_diagnostics]
  exact ⟨List.prefix_append _ _, List.prefix_append _ _⟩

end Text

end LenSyntax

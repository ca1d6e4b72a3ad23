import LenSyntax.Proofs.Token.Extension

/-! Where tokens are scanned. A token is what a scan makes of the text that starts where the token
does, and what is complained about inside the token is what is wrong with that lexeme. -/
namespace LenSyntax

/-- What is complained about inside a token. -/
def TokenStream.complaints (stream : TokenStream) (t : Token) : List Diagnostic :=
  stream.diagnostics.filter (·.span.Within t.span)

namespace Text

/-- Each lexeme is scanned where it starts. -/
theorem lexemes_scanned (p : Position) (t : Text) :
    ∀ l ∈ lexemes p t, ∃ u c v, t = u ++ c :: v ∧ l = ⟨p.after u, (Lexeme.scan c v).1⟩ := by
  match t with
  | [] => simp
  | c :: t =>
    rw [lexemes_cons]
    intro l hl
    obtain rfl | hl := List.mem_cons.1 hl
    · exact ⟨[], c, t, rfl, rfl⟩
    · obtain ⟨u, d, v, ht, rfl⟩ := lexemes_scanned _ _ l hl
      refine ⟨(Lexeme.scan c t).1.raw ++ u, d, v, ?_, ?_⟩
      · rw [List.append_assoc, ← ht, Lexeme.scan_append]
      · rw [Position.after_append]
  termination_by t.length
  decreasing_by exact Lexeme.scan_length_lt c t

/-- No diagnostic of another lexeme lies inside a lexeme. -/
theorem filter_diagnostics_within {p : Position} {t : Text} {l : Placed} (hl : l ∈ lexemes p t) :
    ((lexemes p t).flatMap (·.diagnostics)).filter (·.span.Within l.span) = l.diagnostics := by
  have hraw := forall_mem_lexemes (P := fun l => l.raw ≠ []) Lexeme.scan_raw_ne_nil p t
  have hapart := lexemes_apart p t
  obtain ⟨front, back, hsplit⟩ := List.append_of_mem hl
  rw [hsplit] at hraw hapart ⊢
  rw [List.pairwise_append, List.pairwise_cons] at hapart
  have hother {ms : List Placed} (hms : ms ⊆ front ++ back) :
      (ms.flatMap (·.diagnostics)).filter (·.span.Within l.span) = [] := by
    simp only [List.filter_eq_nil_iff, decide_eq_true_eq, List.mem_flatMap]
    rintro d ⟨m, hm, hd⟩ hwithin
    obtain ⟨hinside, hwide⟩ := Placed.diagnostics_within (hraw m (by grind)) hd
    rw [Span.Within] at hwithin hinside
    obtain hm | hm := List.mem_append.1 (hms hm)
    · have hbefore := hapart.2.2 m hm l List.mem_cons_self
      omega
    · have hbehind := hapart.2.1.1 m hm
      omega
  have hown : l.diagnostics.filter (·.span.Within l.span) = l.diagnostics := by
    rw [List.filter_eq_self]
    intro d hd
    exact decide_eq_true (Placed.diagnostics_within (hraw l (by simp)) hd).1
  rw [List.flatMap_append, List.flatMap_cons, List.filter_append, List.filter_append, hown,
    hother (List.subset_append_left _ _), hother (List.subset_append_right _ _), List.nil_append,
    List.append_nil]

/-- A token that starts behind `before` is what is scanned there, with all that is wrong with it. -/
theorem token_scanned {config : Config} {before rest : Text} {c : CodePoint} {t : Token}
    (ht : t ∈ ((before ++ c :: rest).tokenStream config).tokens)
    (hstart : t.span.start.offset = before.length) :
    let l : Placed := ⟨Position.origin.after before, (Lexeme.scan c rest).1⟩
    t.span = l.span ∧ l.token? config.keepComments = some t ∧
      ((before ++ c :: rest).tokenStream config).complaints t = l.diagnostics := by
  intro l
  rw [tokenStream_tokens, List.mem_append, List.mem_singleton] at ht
  obtain ht | rfl := ht
  · obtain ⟨m, hm, -, hspan, htoken⟩ := exists_lexeme ht
    obtain ⟨u, d, v, hsource, rfl⟩ := lexemes_scanned _ _ m hm
    have hlength : before.length = u.length := by
      have hoffset := congrArg (·.start.offset) hspan
      simp only [Placed.span, Position.after_offset, Position.origin, hstart] at hoffset
      omega
    obtain ⟨rfl, hrest⟩ := List.append_inj hsource hlength
    obtain ⟨rfl, rfl⟩ := List.cons.inj hrest
    refine ⟨hspan, htoken, ?_⟩
    rw [TokenStream.complaints, hspan]
    exact filter_diagnostics_within hm
  · simp only [Token.endAt, Span.point, Position.after_offset, Position.origin, List.length_append,
      List.length_cons] at hstart
    omega

end Text

end LenSyntax

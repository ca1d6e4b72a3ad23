import LenSyntax.Proofs.Machine.Progress
import LenSyntax.Proofs.Machine.Tracking

/-! Parsing goes on by taking tokens. What the machine does that sees the input in front of its end
holds of the parser with a cursor, for all tokens that it may be given. -/
namespace LenSyntax.Machine.Cursor

open Relation (TransGen)

variable {limit : Nat} {e : Token} {more : List Token} {x x' : Cursor} {y : State}

/-- Whatever comes later, between the states shown tokens have been taken or the machine has come
down. -/
theorem Shows.exists_descends (he : e.kind = .endOfInput) (h : x.Shows (e :: more) y)
    (hb : y.Balanced limit) (hr : TransGen (Next limit) x x') :
    ∃ y', y'.Balanced limit ∧ x'.Shows (e :: more) y' ∧ y.Descends limit e.span y' := by
  induction hr with
  | single hn =>
    obtain ⟨y', hstep, hs⟩ := h.next he hb hn
    exact ⟨y', hb.step hstep, hs, hb.descends hstep⟩
  | tail _ hn ih =>
    obtain ⟨z, hz, hzs, hdescends⟩ := ih
    obtain ⟨y', hstep, hs⟩ := hzs.next he hz hn
    exact ⟨y', hz.step hstep, hs, hdescends.trans (hz.descends hstep)⟩

/-- A state that comes round to an earlier one has fewer tokens left. -/
theorem Shows.length_lt_of_recurs (he : e.kind = .endOfInput) (h : x.Shows (e :: more) y)
    (hb : y.Balanced limit) (hr : TransGen (Next limit) x x')
    (hrecurs : x.toState.Recurs x'.toState) : x'.rest.length < x.rest.length := by
  obtain ⟨y', hb', h', hdescends⟩ := h.exists_descends he hb hr
  have hrecurs' : y.Recurs y' := by
    cases hrecurs with
    | program hx hy => exact .program (h.task_eq ▸ hx) (h'.task_eq ▸ hy)
    | fields hx hy hframes =>
      exact .fields (h.task_eq ▸ hx) (h'.task_eq ▸ hy) (h.frames_eq ▸ h'.frames_eq ▸ hframes)
    | expression hx hy => exact .expression (h.task_eq ▸ hx) (h'.task_eq ▸ hy)
  have hlt := hdescends.length_lt_of_recurs hrecurs' hb hb'
  rw [h.rest_eq, h'.rest_eq, List.length_append, List.length_append]
  exact Nat.add_lt_add_right hlt _

/-- The parser comes to an end by taking tokens, whatever tokens it is given, and it comes to an end
with the program that is parsed. Wherever it is, its next step moves the cursor neither past the end
of the input nor past the last token. Where it has skipped tokens because of what it found, it has
skipped at least one, and the first is neither a semicolon nor an end of input. When it comes round
to another statement, another field of the same product or any other expression, fewer tokens are
left. Diagnostics that tell what was found point neither at a semicolon nor at an end of input. -/
theorem run_consumes (config : Config) (tokens : List Token) :
    Yields config.maxDepth tokens (Program.parse config tokens) ∧
      (∀ x, Reaches config.maxDepth (start tokens) x →
        (∃ next, x.step config.maxDepth = .ok next) ∧
          (∀ skip ∈ x.skips, skip.fault.TellsFound → ∃ t more, skip.passed = t :: more ∧
            t.kind ≠ .semicolon ∧ t.kind ≠ .endOfInput) ∧
          ∀ y, TransGen (Next config.maxDepth) x y → x.toState.Recurs y.toState →
            y.rest.length < x.rest.length) ∧
      ∀ d ∈ (Program.parse config tokens).diagnostics, ∀ fault : SyntaxFault, fault.TellsFound →
        d.message = fault.message → ∃ t ∈ tokens, t.kind ≠ .semicolon ∧ t.kind ≠ .endOfInput ∧
          d.span = t.span := by
  refine ⟨yields_parse config tokens, fun x hx => ?_, fun d hd fault hf hm => ?_⟩
  · obtain ⟨e, more, y, he, hb, hs⟩ := Reaches.exists_shows hx
    obtain ⟨r, hr, -⟩ := hs.step he hb
    exact ⟨⟨r, hr⟩, hs.fruitful, fun z hz => hs.length_lt_of_recurs he hb hz⟩
  · obtain ⟨t, ht, hkind, hspan⟩ := Program.points_parse config tokens hd hf hm
    have hword : t.kind ≠ .endOfInput := by simpa using List.mem_takeWhile_imp ht
    have hmem : t ∈ tokens := (List.mem_filter.1 ((List.takeWhile_prefix _).subset ht)).1
    exact ⟨t, hmem, hkind, hword, hspan⟩

end LenSyntax.Machine.Cursor

import LenSyntax.Proofs.Grammar.Spelling

/-! What recovery skips. It counts brackets, so it passes whatever is spelled as the grammar says and
stops at the synchronization point behind that, be it the closer of the enclosing bracket, a comma
of the enclosing product, a semicolon or the end of the input. -/
namespace LenSyntax

/-- No token is waited for but a closer or a comma. -/
def Surroundings.AwaitsClosers (s : Surroundings) : Prop :=
  ∀ k ∈ s.closers, k ∈ [TokenKind.closeParen, .closeBrace, .comma]

/-- Skipping that is so deep in brackets goes on behind `w`, as deep as it was in front of it. -/
def Surroundings.Passes (s : Surroundings) (nesting : Nat) (w : List Token) : Prop :=
  ∀ stop rest, ∃ stop', s.skip nesting stop (w ++ rest) = s.skip nesting stop' rest

/-- Whether a token neither brackets nor separates others. -/
def TokenKind.isPlain (k : TokenKind) : Bool :=
  k ∉ [openParen, openBrace, closeParen, closeBrace, comma, semicolon]

namespace Surroundings
variable {s : Surroundings} {t : Token} {ts w v : List Token} {nesting : Nat}

theorem AwaitsClosers.within (h : s.AwaitsClosers) (b : Bracket) :
    (s.within b.awaited).AwaitsClosers := by
  cases b <;> simpa [AwaitsClosers, Surroundings.within] using h

/-- Skipping stops where it is told to. -/
theorem skip_of_atSync (stop : Position) (h : s.atSync ts) : s.skip 0 stop ts = (stop, ts) := by
  cases ts with
  | nil => rfl
  | cons t ts =>
    have hstop : t.kind = .semicolon ∨ 0 = 0 ∧ t.kind ∈ s.closers := by
      simpa [atSync, awaits] using h
    rw [skip, if_pos hstop]

/-- Skipping stops nowhere but at a synchronization point. -/
theorem atSync_skip (s : Surroundings) (nesting : Nat) (stop : Position) (ts : List Token) :
    s.atSync (s.skip nesting stop ts).2 := by
  induction ts generalizing nesting stop with
  | nil => rfl
  | cons t ts ih =>
    simp only [skip]
    split
    · next ht => simpa [atSync, awaits] using ht.imp_right And.right
    · exact ih _ _

theorem kind_ne_semicolon_of_not_atSync (h : ¬ s.atSync (t :: ts)) : t.kind ≠ .semicolon :=
  fun hm => h (by simp [atSync, awaits, hm])

/-- Between statements no token but a semicolon is a synchronization point. -/
theorem not_atSync_of_closers_eq_nil (hc : s.closers = []) (ht : t.kind ≠ .semicolon)
    (ts : List Token) : ¬ s.atSync (t :: ts) := by simp [atSync, awaits, ht, hc]

/-- Skipping passes the next token, unless it is a synchronization point. -/
theorem length_recover_lt (fault : SyntaxFault) (hs : ¬ s.atSync ts) :
    (s.recover fault ts).rest.length < ts.length := by
  cases ts with
  | nil => exact absurd rfl hs
  | cons t ts => exact Nat.lt_succ_of_le (recover_suffix_tail fault ts hs).length_le

/-- A token that nobody waits for is passed. -/
theorem skip_cons (stop : Position) (hm : t.kind ≠ .semicolon)
    (hc : nesting = 0 → t.kind ∉ s.closers) :
    s.skip nesting stop (t :: ts) = s.skip (nestBehind nesting t.kind) t.span.stop ts := by
  rw [skip, if_neg]
  rintro (h | ⟨h0, h⟩)
  · exact hm h
  · exact hc h0 h

namespace Passes

theorem nil : s.Passes nesting [] := fun stop _ => ⟨stop, rfl⟩

theorem append (hw : s.Passes nesting w) (hv : s.Passes nesting v) :
    s.Passes nesting (w ++ v) := by
  intro stop rest
  obtain ⟨between, hbetween⟩ := hw stop (v ++ rest)
  obtain ⟨stop', hstop⟩ := hv between rest
  exact ⟨stop', by rw [List.append_assoc, hbetween, hstop]⟩

/-- A token that opens and closes nothing is passed where nobody waits for it. -/
theorem cons (ht : nestBehind nesting t.kind = nesting) (hm : t.kind ≠ .semicolon)
    (hc : nesting = 0 → t.kind ∉ s.closers) (hw : s.Passes nesting w) :
    s.Passes nesting (t :: w) := by
  intro stop rest
  obtain ⟨stop', hstop⟩ := hw t.span.stop rest
  exact ⟨stop', by rw [List.cons_append, skip_cons stop hm hc, ht, hstop]⟩

theorem comma (ht : t.kind = .comma) (hn : 0 < nesting) (hw : s.Passes nesting w) :
    s.Passes nesting (t :: w) :=
  hw.cons (by rw [ht]; rfl) (by simp [ht]) (by omega)

section Awaited
variable (h : s.AwaitsClosers)
include h

theorem plain (ht : t.kind.isPlain) (hw : s.Passes nesting w) : s.Passes nesting (t :: w) := by
  have hkind : t.kind ∉ [TokenKind.openParen, .openBrace, .closeParen, .closeBrace, .comma,
      .semicolon] := by simpa [TokenKind.isPlain] using ht
  refine hw.cons ?_ (by rintro hm; simp [hm] at hkind) ?_
  · cases hk : t.kind <;> simp_all [nestBehind]
  · intro _ hc
    have := h _ hc
    simp_all

/-- A bracket is passed from its opener to its closer. -/
theorem bracket {b : Bracket} {o c : Token} (ho : o.kind = b.opener) (hc : c.kind = b.closer)
    (hw : s.Passes (nesting + 1) w) (hv : s.Passes nesting v) :
    s.Passes nesting (o :: (w ++ c :: v)) := by
  intro stop rest
  obtain ⟨inner, hinner⟩ := hw o.span.stop (c :: (v ++ rest))
  obtain ⟨stop', hstop⟩ := hv c.span.stop rest
  have hopen : s.skip nesting stop (o :: (w ++ c :: (v ++ rest))) =
      s.skip (nesting + 1) o.span.stop (w ++ c :: (v ++ rest)) := by
    rw [skip_cons stop (by cases b <;> simp [ho]), ho]
    · cases b <;> rfl
    · intro _ hm
      have := h _ hm
      cases b <;> simp [ho] at this
  have hclose : s.skip (nesting + 1) inner (c :: (v ++ rest)) =
      s.skip nesting c.span.stop (v ++ rest) := by
    rw [skip_cons inner (by cases b <;> simp [hc]) (by simp), hc]
    cases b <;> rfl
  refine ⟨stop', ?_⟩
  rw [List.cons_append, List.append_assoc, List.cons_append, hopen, hinner, hclose, hstop]

end Awaited
end Passes
end Surroundings

theorem TokenKind.isPlain_of_isAtom {k : TokenKind} (h : k.isAtom) : k.isPlain := by
  cases k <;> first | rfl | cases h

/-- What is spelled as the grammar says is passed as a whole, the fields of a product only from
inside of it, where no comma ends the skipping. -/
theorem Spells.passes {s : Surroundings} (hs : s.AwaitsClosers) {place : Place} {w : List Token}
    (h : Spells place w) (nesting : Nat) (hn : place = .fields → 0 < nesting) :
    s.Passes nesting w := by
  induction h generalizing nesting with
  | binding ht hm value ih =>
    exact .plain hs (by rw [ht]; rfl) (.plain hs (by rw [hm]; rfl) (ih nesting (by simp)))
  | bare value ih => exact ih nesting (by simp)
  | negate ht more ih =>
    exact .plain hs (by rw [Token.kind_of_isUnaryOperator ht]; rfl) (ih nesting (by simp))
  | operand operand ih => exact ih nesting (by simp)
  | token ht more ih => exact .plain hs (TokenKind.isPlain_of_isAtom ht) (ih nesting (by simp))
  | lambda ht ha body ih =>
    exact .plain hs (by rw [ht]; rfl) (.plain hs (by rw [ha]; rfl) (ih nesting (by simp)))
  | group ho inner hc more ihi ihm =>
    exact .bracket hs (b := .paren) ho hc (ihi (nesting + 1) (by simp)) (ihm nesting (by simp))
  | product ho inner hc more ihi ihm =>
    exact .bracket hs (b := .brace) ho hc (ihi (nesting + 1) (by simp)) (ihm nesting (by simp))
  | done => exact .nil
  | operator ht right ih =>
    exact .plain hs (by rw [Token.kind_of_binaryOperator? ht]; rfl) (ih nesting (by simp))
  | argument argument ih => exact ih nesting (by simp)
  | noField => exact .nil
  | lastField ht hc value ih =>
    exact .plain hs (by rw [ht]; rfl) (.plain hs (by rw [hc]; rfl) (ih nesting (by simp)))
  | comma ht hk value hc more ihv ihm =>
    have hmore := Surroundings.Passes.comma hc (hn rfl) (ihm nesting hn)
    exact .plain hs (by rw [ht]; rfl) (.plain hs (by rw [hk]; rfl)
      ((ihv nesting (by simp)).append hmore))

/-- Recovery in front of an expression that is spelled as the grammar says passes it and no more. -/
theorem Spells.recover_rest {s : Surroundings} (hs : s.AwaitsClosers) {w rest : List Token}
    (h : Spells .start w) (hr : s.atSync rest) (fault : SyntaxFault) :
    (s.recover fault (w ++ rest)).rest = rest := by
  obtain ⟨stop, hstop⟩ := h.passes hs 0 (by simp) (s.here (w ++ rest)).start rest
  rw [Surroundings.recover, hstop, Surroundings.skip_of_atSync stop hr]

end LenSyntax

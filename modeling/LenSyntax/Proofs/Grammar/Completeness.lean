import LenSyntax.Proofs.Grammar.Agreement
import LenSyntax.Proofs.Grammar.Skipping

/-! What is derivable is read to its end, and no error is reported but that something is nested too
deeply: what lies too deep is skipped up to where it ends. -/
namespace LenSyntax

/-- Nothing is said to be nested too deeply. -/
def Shallow (limit : Nat) (ds : List Diagnostic) : Prop :=
  ∀ d ∈ ds, d.message ≠ (SyntaxFault.tooDeep limit).message

@[simp] theorem shallow_append (limit : Nat) (ds es : List Diagnostic) :
    Shallow limit (ds ++ es) ↔ Shallow limit ds ∧ Shallow limit es := by
  simp [Shallow, or_imp, forall_and]

/-- No error is reported but that something is nested too deeply. -/
def OnlyTooDeep (limit : Nat) (ds : List Diagnostic) : Prop :=
  ∀ d ∈ ds, d.severity = .error → d.message = (SyntaxFault.tooDeep limit).message

@[simp] theorem onlyTooDeep_nil (limit : Nat) : OnlyTooDeep limit [] := by simp [OnlyTooDeep]

@[simp] theorem onlyTooDeep_append (limit : Nat) (ds es : List Diagnostic) :
    OnlyTooDeep limit (ds ++ es) ↔ OnlyTooDeep limit ds ∧ OnlyTooDeep limit es := by
  simp [OnlyTooDeep, or_imp, forall_and]

theorem OnlyTooDeep.hasErrors_eq_false {limit : Nat} {ds : List Diagnostic}
    (h : OnlyTooDeep limit ds) (hs : Shallow limit ds) : Diagnostics.hasErrors ds = false := by
  simp only [Diagnostics.hasErrors, List.any_eq_false, decide_eq_true_eq]
  intro d hd he
  exact hs d hd (h d hd he)

/-- What may stand behind an expression: the end of the input, a closer, a comma or a semicolon. -/
def Stops (ts : List Token) : Prop :=
  ∀ k ∈ headKind? ts, k ∈ [TokenKind.closeParen, .closeBrace, .comma, .semicolon]

theorem lowestPrecedence_le {t : Token} {operator : BinaryOperator}
    (h : t.binaryOperator? = some operator) : lowestPrecedence ≤ operator.precedence := by
  unfold Token.binaryOperator? at h
  split at h
  · have hmem : (t.value, operator) ∈ binaryOperators := by
      rw [List.lookup_eq_some_iff] at h
      obtain ⟨l, r, hl, -⟩ := h
      simp [hl]
    have hall : ∀ pair ∈ binaryOperators, lowestPrecedence ≤ pair.2.precedence := by decide
    exact hall _ hmem
  · cases h

namespace Stops
variable {t : Token} {ts : List Token}

theorem nil : Stops [] := by simp [Stops]

theorem of_headKind? {k : TokenKind} (h : headKind? ts = some k)
    (hk : k ∈ [TokenKind.closeParen, .closeBrace, .comma, .semicolon]) : Stops ts := by
  simpa [Stops, h] using hk

theorem not_startsOperand (h : Stops ts) : ¬ startsOperand ts := by
  cases ts with
  | nil => simp [startsOperand]
  | cons t ts =>
    have ht := h t.kind rfl
    cases hk : t.kind <;> simp_all [startsOperand, TokenKind.startsOperand]

theorem kind_ne (h : Stops (t :: ts)) {k : TokenKind}
    (hk : k ∉ [TokenKind.closeParen, .closeBrace, .comma, .semicolon]) : t.kind ≠ k :=
  fun ht => hk (ht ▸ h t.kind rfl)

theorem noOperator (h : Stops ts) (least : Nat) : NoOperator least ts := by
  cases ts with
  | nil => simp [NoOperator]
  | cons t ts =>
    rintro u hu operator ho
    cases hu
    exact absurd (Token.kind_of_binaryOperator? (Option.isSome_of_mem ho)) (h.kind_ne (by decide))

end Stops

/-- An expression may stop in front of every synchronization point. -/
theorem Surroundings.AwaitsClosers.stops {s : Surroundings} {ts : List Token}
    (h : s.AwaitsClosers) (hs : s.atSync ts) : Stops ts := by
  cases ts with
  | nil => exact .nil
  | cons t ts =>
    intro k hk
    obtain rfl : t.kind = k := by simpa using hk
    have hsync : t.kind = .semicolon ∨ t.kind ∈ s.closers := by
      simpa [Surroundings.atSync, Surroundings.awaits] using hs
    obtain ht | ht := hsync
    · simp [ht]
    · have := h _ ht
      simp only [List.mem_cons] at this ⊢
      grind

/-- What the inside of a bracket spells. -/
def Bracket.place : Bracket → Place
  | paren => .start
  | brace => .fields

namespace Spells
variable {t : Token} {ts w rest : List Token}

theorem startsOperand (h : Spells .operand w) (rest : List Token) :
    LenSyntax.startsOperand (w ++ rest) := by
  cases h with
  | @token t w ht more =>
    change t.kind.startsOperand = true
    cases hk : t.kind <;> simp_all [TokenKind.isAtom, TokenKind.startsOperand]
  | lambda ht ha body => simp [startsOperand_cons, ht, TokenKind.startsOperand]
  | group ho inner hc more => simp [startsOperand_cons, ho, TokenKind.startsOperand]
  | product ho inner hc more => simp [startsOperand_cons, ho, TokenKind.startsOperand]

/-- No mark between a name and what it stands for comes behind an operand. -/
theorem headKind?_ne_mark (h : Spells .tail w) (hr : Stops rest) (mark : TokenKind)
    (hm : mark ∈ [TokenKind.arrow, .bind, .colon]) : headKind? (w ++ rest) ≠ some mark := by
  intro he
  cases h with
  | done =>
    have := hr mark he
    cases mark <;> simp at hm this
  | operator ht right =>
    have hk := Token.kind_of_binaryOperator? ht
    rw [List.cons_append, headKind?_cons, hk] at he
    cases he
    simp at hm
  | argument argument =>
    have ho := argument.startsOperand rest
    rw [LenSyntax.startsOperand, he] at ho
    cases mark <;> simp [TokenKind.startsOperand] at hm ho

theorem of_atom (h : Spells .operand w) (hw : t :: ts = w ++ rest) (ht : t.kind.isAtom)
    (ha : t.kind = .identifier → headKind? ts ≠ some .arrow) :
    ∃ v, ts = v ++ rest ∧ Spells .tail v := by
  cases h with
  | token _ more =>
    simp only [List.cons_append, List.cons.injEq] at hw
    exact ⟨_, hw.2, more⟩
  | lambda hi harrow body =>
    simp only [List.cons_append, List.cons.injEq] at hw
    refine absurd ?_ (ha (hw.1 ▸ hi))
    rw [hw.2, headKind?_cons, harrow]
  | group ho inner hc more =>
    simp only [List.cons_append, List.cons.injEq] at hw
    simp [hw.1, ho, TokenKind.isAtom] at ht
  | product ho inner hc more =>
    simp only [List.cons_append, List.cons.injEq] at hw
    simp [hw.1, ho, TokenKind.isAtom] at ht

theorem of_lambda {arrow : Token} (h : Spells .operand w) (hw : t :: arrow :: ts = w ++ rest)
    (hr : Stops rest) (ht : t.kind = .identifier) (ha : arrow.kind = .arrow) :
    ∃ v, ts = v ++ rest ∧ Spells .start v := by
  cases h with
  | @token _ v _ more =>
    -- behind a name that stands alone there is no arrow
    simp only [List.cons_append, List.cons.injEq] at hw
    refine absurd ?_ (more.headKind?_ne_mark hr .arrow (by decide))
    rw [← hw.2, headKind?_cons, ha]
  | lambda _ _ body =>
    simp only [List.cons_append, List.cons.injEq] at hw
    exact ⟨_, hw.2.2, body⟩
  | group ho inner hc more =>
    simp only [List.cons_append, List.cons.injEq] at hw
    simp [hw.1, ho] at ht
  | product ho inner hc more =>
    simp only [List.cons_append, List.cons.injEq] at hw
    simp [hw.1, ho] at ht

/-- An expression does not start with a name and an equals sign. -/
theorem not_binding {mark : Token} (h : Spells .start w) (hw : t :: mark :: ts = w ++ rest)
    (hr : Stops rest) (ht : t.kind = .identifier) : mark.kind ≠ .bind := by
  intro hm
  cases h with
  | negate hu more =>
    simp only [List.cons_append, List.cons.injEq] at hw
    simp [← hw.1, Token.isUnaryOperator, ht] at hu
  | operand operand =>
    obtain ⟨v, hv, htail⟩ := operand.of_atom hw (by rw [ht]; rfl) (by simp [hm])
    refine absurd ?_ (htail.headKind?_ne_mark hr .bind (by decide))
    rw [← hv, headKind?_cons, hm]

theorem of_bracket {b : Bracket} (h : Spells .operand w) (hw : t :: ts = w ++ rest)
    (ht : t.kind = b.opener) :
    ∃ v c u, ts = v ++ c :: (u ++ rest) ∧ Spells b.place v ∧ c.kind = b.closer ∧
      Spells .tail u := by
  cases h with
  | token ha more =>
    simp only [List.cons_append, List.cons.injEq] at hw
    cases b <;> simp [← hw.1, ht, TokenKind.isAtom] at ha
  | lambda hi harrow body =>
    simp only [List.cons_append, List.cons.injEq] at hw
    cases b <;> simp [← hw.1, ht] at hi
  | @group _ v c u ho inner hc more =>
    simp only [List.cons_append, List.cons.injEq, List.append_assoc] at hw
    cases b with
    | paren => exact ⟨v, c, u, hw.2, inner, hc, more⟩
    | brace => simp [hw.1, ho] at ht
  | @product _ v c u ho inner hc more =>
    simp only [List.cons_append, List.cons.injEq, List.append_assoc] at hw
    cases b with
    | paren => simp [hw.1, ho] at ht
    | brace => exact ⟨v, c, u, hw.2, inner, hc, more⟩

/-- Where neither an operand nor an operator comes next, an expression is complete. -/
theorem eq_nil (h : Spells .tail w) (ho : ¬ LenSyntax.startsOperand (w ++ rest))
    (hn : NoOperator lowestPrecedence (w ++ rest)) : w = [] := by
  cases h with
  | done => rfl
  | @operator t v ht right =>
    obtain ⟨operator, hop⟩ := Option.isSome_iff_exists.1 ht
    have hlt := hn t rfl operator hop
    exact absurd (lowestPrecedence_le hop) (Nat.not_le.2 hlt)
  | argument argument => exact absurd (argument.startsOperand rest) ho

end Spells

/-- No error has been read but too deep nesting, and an operand may go on up to `rest`. -/
def Parsed.GoesOn (limit : Nat) (p : Parsed SyntaxTree) (rest : List Token) : Prop :=
  OnlyTooDeep limit p.diagnostics ∧ ∃ w, p.rest = w ++ rest ∧ Spells .tail w

/-- No error has been read but too deep nesting, and nothing is left in front of `rest`. -/
def Parsed.Finishes (limit : Nat) (p : Parsed SyntaxTree) (rest : List Token) : Prop :=
  OnlyTooDeep limit p.diagnostics ∧ p.rest = rest

/-- How far a part is read if what stands there, up to a synchronization point, is spelled as the
grammar says. -/
def Accepts (s : Surroundings) (ts : List Token) (p : Parsed SyntaxTree) : Part → Prop
  | .operand | .calls => ∀ w rest, ts = w ++ rest → Spells .operand w → s.atSync rest →
      p.GoesOn s.limit rest
  | .application => ∀ w rest, ts = w ++ rest → Spells .operand w → s.atSync rest →
      p.GoesOn s.limit rest ∧ ¬ startsOperand p.rest
  | .unary | .operations _ => ∀ w rest, ts = w ++ rest → Spells .start w → s.atSync rest →
      p.GoesOn s.limit rest ∧ ¬ startsOperand p.rest
  | .expression least => ∀ w rest, ts = w ++ rest → Spells .start w → s.atSync rest →
      (p.GoesOn s.limit rest ∧ ¬ startsOperand p.rest) ∧ NoOperator least p.rest
  | .field _ => ∀ t colon w rest, ts = t :: colon :: (w ++ rest) → t.kind = .identifier →
      colon.kind = .colon → Spells .start w → s.atSync rest → p.Finishes s.limit rest
  | .fields => Bracket.brace.awaited ⊆ s.closers → ∀ o w rest, ts = o :: (w ++ rest) →
      Spells .fields w → headKind? rest = some .closeBrace →
        OnlyTooDeep s.limit p.diagnostics ∧ ∃ v, p.rest = v ++ rest ∧ Spells .fields v
  | .inside b => b.awaited ⊆ s.closers → ∀ o w rest, ts = o :: (w ++ rest) → Spells b.place w →
      headKind? rest = some b.closer → p.Finishes s.limit rest
  | .statement => ∀ w rest, ts = w ++ rest → Spells .statement w → s.atSync rest →
      p.Finishes s.limit rest

/-- A bracket is read from its opener on. -/
theorem Parses.headKind?_opener {depth : Nat} {s : Surroundings} {part : Part} {ts : List Token}
    {p : Parsed SyntaxTree} (h : Parses depth s part ts p) :
    (part = .fields → headKind? ts = some .openBrace) ∧
      ∀ b, part = .inside b → headKind? ts = some b.opener := by
  induction h with
  | group ht | leftover ht | product ht => simp [ht]
  | comma _ _ _ _ _ ih | skip _ _ _ _ _ _ ih | noField _ _ ih => simp [ih.1 rfl]
  | lastField _ _ _ _ _ ih => simp [ih.1 rfl]
  | _ => simp

theorem atSync_of_headKind? {s : Surroundings} {ts : List Token} {k : TokenKind}
    (h : headKind? ts = some k) (hk : k ∈ s.closers) : s.atSync ts := by
  cases ts with
  | nil => rfl
  | cons t ts =>
    have ht : t.kind = k := by simpa using h
    simp [Surroundings.atSync, Surroundings.awaits, ht, hk]

/-- Any expression that is spelled as the grammar says is read to its end. -/
theorem Accepts.finishes {s : Surroundings} {ts : List Token} {p : Parsed SyntaxTree}
    (h : Accepts s ts p (.expression lowestPrecedence)) {w rest : List Token}
    (hw : ts = w ++ rest) (hs : Spells .start w) (hr : s.atSync rest) :
    p.Finishes s.limit rest := by
  obtain ⟨⟨⟨hd, v, hv, htail⟩, ho⟩, hn⟩ := h w rest hw hs hr
  rw [hv] at ho hn
  rw [htail.eq_nil ho hn] at hv
  exact ⟨hd, hv⟩

/-- A bracket that is spelled as the grammar says is read up to its closer. -/
theorem Accepts.bracket {s : Surroundings} {b : Bracket} {ts : List Token} {p : Parsed SyntaxTree}
    (h : Accepts (s.within b.awaited) ts p (.inside b)) (hopen : headKind? ts = some b.opener)
    {w rest : List Token} (hw : ts = w ++ rest) (hs : Spells .operand w) :
    ∃ c v, p.Finishes s.limit (c :: (v ++ rest)) ∧ c.kind = b.closer ∧ Spells .tail v := by
  cases ts with
  | nil => cases hopen
  | cons o ts =>
    obtain ⟨u, c, v, rfl, hu, hc, hv⟩ := hs.of_bracket hw (by simpa using hopen)
    exact ⟨c, v, h (List.subset_append_left _ _) o u _ rfl hu (by simp [hc]), hc, hv⟩

/-- A field that is spelled as the grammar says is read up to the end of the product or up to its
comma. -/
theorem Accepts.nextField {s : Surroundings} {before : List SyntaxTree} {ts : List Token}
    {q : Parsed SyntaxTree} (h : Accepts s ts q (.field before))
    (hb : Bracket.brace.awaited ⊆ s.closers) {v rest : List Token}
    (hv : ts = v ++ rest) (hs : Spells .fields v) (hr : headKind? rest = some .closeBrace)
    (he : ¬ s.endsFields ts) :
    q.Finishes s.limit rest ∨
      ∃ c u, q.Finishes s.limit (c :: (u ++ rest)) ∧ c.kind = .comma ∧ Spells .fields u := by
  cases hs with
  | noField => exact absurd (by simp [Surroundings.endsFields, hv, hr]) he
  | lastField hi hk value =>
    exact .inl (h _ _ _ rest hv hi hk value (atSync_of_headKind? hr (hb (by simp))))
  | @comma n colon w c u hi hk value hc more =>
    have hsync : s.atSync (c :: (u ++ rest)) :=
      atSync_of_headKind? (k := .comma) (by simp [hc]) (hb (by simp))
    exact .inr ⟨c, u, h n colon w _ (by simp [hv]) hi hk value hsync, hc, more⟩

/-- What is spelled as the grammar says is read to its end, and no error is reported but that
something is nested too deeply. -/
theorem Parses.accepts {depth : Nat} {s : Surroundings} {part : Part} {ts : List Token}
    {p : Parsed SyntaxTree} (h : Parses depth s part ts p) (hs : s.AwaitsClosers) :
    Accepts s ts p part := by
  induction h with
  | @literal _ _ t _ _ ht =>
    intro w rest hw hspells hr
    have hi : t.kind ≠ .identifier := by rintro hk; rw [hk] at ht; cases ht
    have ha : t.kind.isAtom := by cases hk : t.kind <;> rw [hk] at ht <;> first | rfl | cases ht
    exact ⟨onlyTooDeep_nil _, hspells.of_atom hw ha (absurd · hi)⟩
  | @name _ _ t _ ht ha =>
    intro w rest hw hspells hr
    exact ⟨onlyTooDeep_nil _, hspells.of_atom hw (by rw [ht]; rfl) fun _ => ha⟩
  | @invalid _ _ t _ ht =>
    intro w rest hw hspells hr
    exact ⟨onlyTooDeep_nil _, hspells.of_atom hw (by rw [ht]; rfl) (by simp [ht])⟩
  | lambda ht ha body ih =>
    intro w rest hw hspells hr
    obtain ⟨v, hv, hbody⟩ := hspells.of_lambda hw (hs.stops hr) ht ha
    exact (ih hs v rest hv hbody hr).1.1
  | @closed _ s b ts p t _ inside hr' ht ih =>
    intro w rest hw hspells hr
    obtain ⟨c, v, ⟨hd, hrest⟩, hc, hv⟩ :=
      (ih (hs.within b)).bracket (inside.headKind?_opener.2 b rfl) hw hspells
    rw [hr', List.cons.injEq] at hrest
    exact ⟨hd, v, hrest.2, hv⟩
  | @unclosed _ s b ts p inside hr' ih =>
    intro w rest hw hspells hr
    obtain ⟨c, v, ⟨hd, hrest⟩, hc, hv⟩ :=
      (ih (hs.within b)).bracket (inside.headKind?_opener.2 b rfl) hw hspells
    exact absurd (by simp [hrest, hc]) hr'
  | missing ho hsync =>
    intro w rest hw hspells hr
    exact absurd (hw ▸ hspells.startsOperand rest) ho
  | unexpected ho hsync =>
    intro w rest hw hspells hr
    exact absurd (hw ▸ hspells.startsOperand rest) ho
  | group ht body hsync ih =>
    intro hb o w rest hw hspells hr
    rw [List.cons.injEq] at hw
    exact (ih hs).finishes hw.2 hspells (atSync_of_headKind? hr (hb (by simp)))
  | leftover ht body hsync hq ih =>
    intro hb o w rest hw hspells hr
    rw [List.cons.injEq] at hw
    have hsync' := atSync_of_headKind? hr (hb (by simp))
    have hbody := (ih hs).finishes hw.2 hspells hsync'
    exact absurd (hbody.2 ▸ hsync') hsync
  | product ht =>
    intro hb o w rest hw hspells hr
    rw [List.cons.injEq] at hw
    exact ⟨onlyTooDeep_nil _, w, hw.2, hspells⟩
  | @comma _ s ts p q t behind before he field hr' ht ihb ihf =>
    intro hb o w rest hw hspells hr
    obtain ⟨hd, v, hv, hfields⟩ := ihb hs hb o w rest hw hspells hr
    obtain ⟨hq, hrest⟩ | ⟨c, u, ⟨hq, hrest⟩, hc, hu⟩ := (ihf hs).nextField hb hv hfields hr he
    -- the last field stands in front of the closing brace and not of a comma
    · rw [← hrest, hr', headKind?_cons, ht] at hr
      cases hr
    · rw [hr', List.cons.injEq] at hrest
      exact ⟨by simpa [Parsed.adding] using ⟨hd, hq⟩, u, hrest.2, hu⟩
  | @skip _ s ts p q r before he field hc' hsync hr' ihb ihf =>
    intro hb o w rest hw hspells hr
    obtain ⟨hd, v, hv, hfields⟩ := ihb hs hb o w rest hw hspells hr
    obtain ⟨hq, hrest⟩ | ⟨c, u, ⟨hq, hrest⟩, hc, hu⟩ := (ihf hs).nextField hb hv hfields hr he
    · exact absurd (atSync_of_headKind? (hrest ▸ hr) (hb (by simp))) hsync
    · exact absurd (by simp [hrest, hc]) hc'
  | @lastField _ s ts p q before he field hc' hsync ihb ihf =>
    intro hb o w rest hw hspells hr
    obtain ⟨hd, v, hv, hfields⟩ := ihb hs hb o w rest hw hspells hr
    obtain ⟨hq, hrest⟩ | ⟨c, u, ⟨hq, hrest⟩, hc, hu⟩ := (ihf hs).nextField hb hv hfields hr he
    · exact ⟨by simpa [Parsed.adding] using ⟨hd, hq⟩, hrest⟩
    · exact absurd (by simp [hrest, hc]) hc'
  | @noField _ s ts p before he ih =>
    intro hb o w rest hw hspells hr
    obtain ⟨hd, v, hv, hfields⟩ := ih hs hb o w rest hw hspells hr
    have hname : .identifier ∉ s.closers := fun hi => by simpa using hs _ hi
    cases hfields with
    | noField => exact ⟨hd, hv⟩
    | lastField hi => simp [hv, endsFields_cons, Surroundings.awaits, hi, hname] at he
    | comma hi => simp [hv, endsFields_cons, Surroundings.awaits, hi, hname] at he
  | @field _ s before t colon ts p ht hc value ih =>
    intro n colon' w rest hw hi hk hspells hr
    simp only [List.cons.injEq] at hw
    have hbody := (ih hs).finishes hw.2.2 hspells hr
    refine ⟨?_, hbody.2⟩
    rw [onlyTooDeep_append]
    refine ⟨hbody.1, ?_⟩
    split <;> simp [OnlyTooDeep, Diagnostic.warning]
  | notField hn =>
    intro n colon w rest hw hi hk hspells hr
    exact absurd (by simp [hw, startsNamed, hi, hk]) hn
  | function operand ih => exact ih hs
  | @call _ s ts p q function ho argument ihf iha =>
    intro w rest hw hspells hr
    obtain ⟨hd, v, hv, htail⟩ := ihf hs w rest hw hspells hr
    cases htail with
    | done =>
      rw [hv] at ho
      exact absurd ho (hs.stops hr).not_startsOperand
    | operator ht right =>
      simp [hv, startsOperand_cons, Token.kind_of_binaryOperator? ht,
        TokenKind.startsOperand] at ho
    | argument hargument =>
      obtain ⟨hq, hrest⟩ := iha hs v rest hv hargument hr
      exact ⟨by simp [hd, hq], hrest⟩
  | application calls ho ih =>
    intro w rest hw hspells hr
    exact ⟨ih hs w rest hw hspells hr, ho⟩
  | unary application hu ih =>
    intro w rest hw hspells hr
    cases hspells with
    | negate ht more => exact absurd (by simpa [hw, startsUnary] using ht) hu
    | operand operand => exact ih hs w rest hw operand hr
  | @negate _ s t ts p ht operand ih =>
    intro w rest hw hspells hr
    cases hspells with
    | negate _ more =>
      rw [List.cons_append, List.cons.injEq] at hw
      exact ih hs _ rest hw.2 more hr
    | operand hoperand =>
      have ho := hoperand.startsOperand rest
      simp [← hw, startsOperand_cons, Token.kind_of_isUnaryOperator ht,
        TokenKind.startsOperand] at ho
  | first operand ih => exact ih hs
  | @operation _ s least ts p t behind operator q left hr' ht hl right ihl ihr =>
    intro w rest hw hspells hr
    obtain ⟨⟨hd, v, hv, htail⟩, ho⟩ := ihl hs w rest hw hspells hr
    cases htail with
    | done =>
      -- an operator is nothing that an expression may stop in front of
      have hk := Token.kind_of_binaryOperator? (Option.isSome_of_mem ht)
      have hstop := hs.stops hr
      rw [show rest = t :: behind from hv.symm.trans hr'] at hstop
      exact absurd hk (hstop.kind_ne (by simp))
    | operator _ hright =>
      rw [hr', List.cons_append, List.cons.injEq] at hv
      obtain ⟨⟨⟨hq, hrest⟩, hstop⟩, -⟩ := ihr hs _ rest hv.2 hright hr
      exact ⟨⟨by simp [hd, hq], hrest⟩, hstop⟩
    | argument hargument => exact absurd (hv ▸ hargument.startsOperand rest) ho
  | expression operations hn ih =>
    intro w rest hw hspells hr
    exact ⟨ih hs w rest hw hspells hr, hn⟩
  | @tooDeep s least ts =>
    intro w rest hw hspells hr
    have hrest := hw ▸ hspells.recover_rest hs hr (.tooDeep s.limit)
    have hstop := hs.stops hr
    have hdeep : OnlyTooDeep s.limit (s.recover (.tooDeep s.limit) ts).diagnostics := by
      simp [OnlyTooDeep, Surroundings.recover, Diagnostic.error]
    refine ⟨⟨⟨hdeep, [], hrest, .done⟩, ?_⟩, ?_⟩
    · rw [hrest]
      exact hstop.not_startsOperand
    · rw [hrest]
      exact hstop.noOperator least
  | binding ht hm value ih =>
    intro w rest hw hspells hr
    cases hspells with
    | binding _ _ hvalue =>
      simp only [List.cons_append, List.cons.injEq] at hw
      exact (ih hs).finishes hw.2.2 hvalue hr
    | bare hvalue => exact absurd hm (hvalue.not_binding hw (hs.stops hr) ht)
  | bare hn value ih =>
    intro w rest hw hspells hr
    cases hspells with
    | binding hi hm _ => exact absurd (by simp [hw, startsNamed, hi, hm]) hn
    | bare hvalue => exact (ih hs).finishes hw hvalue hr

end LenSyntax

import LenSyntax.Proofs.Grammar.Agreement

/-! Recovery is local to statements. In front of a semicolon the parser does what it does at the end
of the input (`Parses.append`), so what stands on the two sides of a semicolon is parsed as if each
stood alone. -/
namespace LenSyntax

/-- The same surroundings in an input that ends elsewhere. -/
def Surroundings.endingAt (s : Surroundings) (ending : Span) : Surroundings :=
  ⟨s.limit, ending, s.closers⟩

/-- What has been read, with more tokens behind the remaining ones. -/
def Parsed.before {α : Type} (p : Parsed α) (more : List Token) : Parsed α :=
  ⟨p.value, p.diagnostics, p.rest ++ more⟩

section Semicolon
variable {m : Token} (hm : m.kind = .semicolon) (more : List Token)
include hm

theorem headKind?_append {kind : TokenKind} (hk : kind ≠ .semicolon) (ts : List Token) :
    headKind? (ts ++ m :: more) = some kind ↔ headKind? ts = some kind := by
  cases ts with
  | nil => simp [hm, hk.symm]
  | cons t ts => rfl

theorem startsOperand_append (ts : List Token) :
    startsOperand (ts ++ m :: more) = startsOperand ts := by
  cases ts with
  | nil => simp [startsOperand, hm, TokenKind.startsOperand]
  | cons t ts => rfl

theorem startsUnary_append (ts : List Token) :
    startsUnary (ts ++ m :: more) = startsUnary ts := by
  cases ts with
  | nil => simp [startsUnary, Token.isUnaryOperator, hm]
  | cons t ts => rfl

theorem startsNamed_append {mark : TokenKind} (hk : mark ≠ .semicolon) (ts : List Token) :
    startsNamed mark (ts ++ m :: more) = startsNamed mark ts := by
  match ts with
  | [] => cases more <;> simp [startsNamed, hm]
  | [t] => simp [startsNamed, hm, hk.symm]
  | t :: u :: ts => rfl

theorem noOperator_append {least : Nat} {ts : List Token} (h : NoOperator least ts) :
    NoOperator least (ts ++ m :: more) := by
  cases ts with
  | nil => simp [NoOperator, Token.binaryOperator?, hm]
  | cons t ts => exact h

namespace Surroundings
variable (s : Surroundings) (ending : Span)

theorem atSync_append (ts : List Token) :
    (s.endingAt ending).atSync (ts ++ m :: more) = s.atSync ts := by
  cases ts with
  | nil => simp [atSync, awaits, hm]
  | cons t ts => rfl

theorem endsFields_append (ts : List Token) :
    (s.endingAt ending).endsFields (ts ++ m :: more) = s.endsFields ts := by
  cases ts with
  | nil => simp [endsFields, atSync, awaits, hm]
  | cons t ts => rfl

theorem skip_append (nesting : Nat) (stop : Position) (ts : List Token) :
    (s.endingAt ending).skip nesting stop (ts ++ m :: more) =
      ((s.skip nesting stop ts).1, (s.skip nesting stop ts).2 ++ m :: more) := by
  induction ts generalizing nesting stop with
  | nil => simp [skip, hm]
  | cons t ts ih =>
    simp only [List.cons_append, skip, show (s.endingAt ending).closers = s.closers from rfl]
    split
    · rfl
    · exact ih _ _

variable (hs : s.ending = m.span)
include hs

omit hm in
theorem here_append (ts : List Token) : (s.endingAt ending).here (ts ++ m :: more) = s.here ts := by
  cases ts with
  | nil => exact hs.symm
  | cons t ts => rfl

omit hm in
theorem missing_append (fault : SyntaxFault) (ts : List Token) :
    (s.endingAt ending).missing fault (ts ++ m :: more) =
      (s.missing fault ts).before (m :: more) := by
  simp only [missing, Parsed.before, s.here_append more ending hs]

theorem recover_append (fault : SyntaxFault) (ts : List Token) :
    (s.endingAt ending).recover fault (ts ++ m :: more) =
      (s.recover fault ts).before (m :: more) := by
  simp only [recover, Parsed.before, s.here_append more ending hs, s.skip_append hm]

/-- A token that is skipped stands in front of the semicolon. -/
theorem recover_ofHead_append (fault : Found → SyntaxFault) {ts : List Token}
    (h : ¬ s.atSync ts) :
    (s.endingAt ending).recover (fault (.ofHead (ts ++ m :: more))) (ts ++ m :: more) =
      (s.recover (fault (.ofHead ts)) ts).before (m :: more) := by
  cases ts with
  | nil => exact absurd rfl h
  | cons t ts => exact s.recover_append hm more ending hs _ _

end Surroundings

theorem noField_append (s : Surroundings) (ending : Span) (hs : s.ending = m.span)
    (ts : List Token) :
    ExpressionParser.noField (s.endingAt ending) (ts ++ m :: more) =
      (ExpressionParser.noField s ts).before (m :: more) := by
  unfold ExpressionParser.noField
  rw [s.atSync_append hm]
  split
  · exact s.missing_append more ending hs _ _
  · next h => exact s.recover_ofHead_append hm more ending hs .notFieldName h

/-- What the parser does at the end of the input it does in front of a semicolon there. -/
theorem Parses.append {depth : Nat} {s : Surroundings} {part : Part} {ts : List Token}
    {p : Parsed SyntaxTree} (h : Parses depth s part ts p) (hs : s.ending = m.span)
    (ending : Span) :
    Parses depth (s.endingAt ending) part (ts ++ m :: more) (p.before (m :: more)) := by
  induction h with
  | literal ht => exact .literal ht
  | name ht ha => exact .name ht (mt (headKind?_append hm more (by decide) _).1 ha)
  | invalid ht => exact .invalid ht
  | lambda ht ha body ih => exact .lambda ht ha (ih hs)
  | @closed _ s b ts p t rest inside hr ht ih =>
    exact .closed (p := p.before (m :: more)) (ih hs) (by rw [Parsed.before, hr]; rfl) ht
  | @unclosed _ s b ts p inside hr ih =>
    have hb : b.closer ≠ .semicolon := by cases b <;> decide
    have h := Parses.unclosed (p := p.before (m :: more)) (s := s.endingAt ending) (ih hs)
      (mt (headKind?_append hm more hb _).1 hr)
    rwa [show (s.endingAt ending).here (p.before (m :: more)).rest = s.here p.rest from
      s.here_append more ending hs _] at h
  | missing ho hs' =>
    rw [← Surroundings.missing_append more _ ending hs]
    exact .missing (by rwa [startsOperand_append hm]) (by rwa [Surroundings.atSync_append hm])
  | unexpected ho hs' =>
    rw [← Surroundings.recover_ofHead_append hm more _ ending hs .unexpected hs']
    exact .unexpected (by rwa [startsOperand_append hm]) (by rwa [Surroundings.atSync_append hm])
  | group ht body hs' ih =>
    exact .group ht (ih hs) (by rwa [Parsed.before, Surroundings.atSync_append hm])
  | @leftover _ s t ts p q ht body hs' hq ih =>
    have hq' := s.recover_ofHead_append hm more ending hs .unexpected hs'
    exact .leftover (p := p.before (m :: more)) (q := q.before (m :: more)) ht (ih hs)
      (by rwa [Parsed.before, Surroundings.atSync_append hm]) (by rw [hq, ← hq']; rfl)
  | product ht => exact .product ht
  | @comma _ s ts p q t rest before he field hr ht ihb ihf =>
    exact .comma (ihb hs) (by rwa [Parsed.before, Surroundings.endsFields_append hm]) (ihf hs)
      (by rw [Parsed.before, hr]; rfl) ht
  | @skip _ s ts p q r before he field hc hs' hr ihb ihf =>
    have hr' := s.recover_ofHead_append hm more ending hs .afterField hs'
    exact .skip (p := p.before (m :: more)) (q := q.before (m :: more)) (r := r.before (m :: more))
      (ihb hs)
      (by rwa [Parsed.before, Surroundings.endsFields_append hm]) (ihf hs)
      (mt (headKind?_append hm more (by decide) _).1 hc)
      (by rwa [Parsed.before, Surroundings.atSync_append hm]) (by rw [hr, ← hr']; rfl)
  | lastField before he field hc hs' ihb ihf =>
    exact .lastField (ihb hs) (by rwa [Parsed.before, Surroundings.endsFields_append hm]) (ihf hs)
      (mt (headKind?_append hm more (by decide) _).1 hc)
      (by rwa [Parsed.before, Surroundings.atSync_append hm])
  | noField before he ih =>
    exact .noField (ih hs) (by rwa [Parsed.before, Surroundings.endsFields_append hm])
  | field ht hc value ih => exact .field ht hc (ih hs)
  | notField hn =>
    rw [← noField_append hm more _ ending hs]
    exact .notField (by rwa [startsNamed_append hm more (by decide)])
  | function operand ih => exact .function (ih hs)
  | call function ho argument ihf iha =>
    exact .call (ihf hs) (by rwa [Parsed.before, startsOperand_append hm]) (iha hs)
  | application calls ho ih =>
    exact .application (ih hs) (by rwa [Parsed.before, startsOperand_append hm])
  | unary application hu ih => exact .unary (ih hs) (by rwa [startsUnary_append hm])
  | negate ht operand ih => exact .negate ht (ih hs)
  | first operand ih => exact .first (ih hs)
  | operation left hr ht hl right ihl ihr =>
    exact .operation (ihl hs) (by rw [Parsed.before, hr]; rfl) ht hl (ihr hs)
  | expression operations hn ih => exact .expression (ih hs) (noOperator_append hm more hn)
  | tooDeep =>
    rw [← Surroundings.recover_append hm more _ ending hs]
    exact .tooDeep
  | binding ht hk value ih => exact .binding ht hk (ih hs)
  | bare hn value ih => exact .bare (by rwa [startsNamed_append hm more (by decide)]) (ih hs)

/-- Statements on the two sides of a semicolon are parsed apart. -/
theorem ParsesStatements.append {depth : Nat} {s : Surroundings} {ts : List Token}
    {p q : Parsed (List SyntaxTree)} (h : ParsesStatements depth s ts p) (hs : s.ending = m.span)
    (ending : Span) (hq : ParsesStatements depth (s.endingAt ending) more q) :
    ParsesStatements depth (s.endingAt ending) (ts ++ m :: more)
      ⟨p.value ++ q.value, p.diagnostics ++ q.diagnostics, q.rest⟩ := by
  induction h with
  | nil => exact .semicolon hm hq
  | semicolon ht _ ih => exact .semicolon ht ih
  | last ht one hr =>
    have h := ParsesStatements.next ht (one.append hm more hs ending)
      (by rw [Parsed.before, hr]; rfl) hm hq
    simpa [Parsed.before] using h
  | next ht one hr hu _ ih =>
    have h := ParsesStatements.next ht (one.append hm more hs ending)
      (by rw [Parsed.before, hr]; rfl) hu ih
    simpa [Parsed.before] using h
  | @skip t ts p u rest r p' ht one hr hu hskip _ ih =>
    have hskip' := s.recover_append hm more ending hs (.afterStatement (.token u.raw)) (u :: rest)
    rw [← hskip] at hskip'
    have h := ParsesStatements.skip (r := r.before (m :: more)) ht (one.append hm more hs ending)
      (by rw [Parsed.before, hr]; rfl) hu hskip'.symm ih
    simpa [Parsed.before] using h

end Semicolon

namespace Program

theorem significant_append {a : List Token} (ha : ∀ t ∈ a, t.kind ≠ .endOfInput)
    (b : List Token) :
    significant (a ++ b) = a.filter (·.kind ≠ .comment) ++ significant b := by
  induction a with
  | nil => rfl
  | cons t a ih =>
    have ht := ha t (by simp)
    have ih := ih fun u hu => ha u (by simp [hu])
    unfold significant at ih ⊢
    by_cases hc : t.kind = .comment <;> simp_all

theorem find?_endOfInput_eq_none {a : List Token} (ha : ∀ t ∈ a, t.kind ≠ .endOfInput) :
    (a.filter (·.kind ≠ .comment)).find? (·.kind = .endOfInput) = none := by
  simpa using fun t ht _ => ha t ht

/-- Whatever ends the second of two inputs ends both, if there is anything to parse in it. -/
theorem ending_append {a : List Token} (ha : ∀ t ∈ a, t.kind ≠ .endOfInput) {b : List Token}
    (hb : significant b ≠ []) : ending (a ++ b) = ending b := by
  have hseen : b.filter (·.kind ≠ .comment) ≠ [] := by
    intro h
    rw [significant, h] at hb
    exact hb rfl
  have hlast : (a.filter (·.kind ≠ .comment) ++ b.filter (·.kind ≠ .comment)).getLast? =
      (b.filter (·.kind ≠ .comment)).getLast? := by
    rw [List.getLast?_append, List.getLast?_eq_some_getLast hseen]
    rfl
  simp only [ending, List.filter_append, List.find?_append, find?_endOfInput_eq_none ha,
    Option.none_or, hlast]

/-- What stands in front of a semicolon is parsed as if the input ended there, and what stands
behind it as if the input started there. -/
theorem parse_append_semicolon (config : Config) (a b : List Token) (m e : Token)
    (ha : ∀ t ∈ a, t.kind ≠ .endOfInput) (hm : m.kind = .semicolon)
    (he : e.kind = .endOfInput) (hs : e.span = m.span) :
    (parse config (a ++ [m] ++ b)).tree.children =
        (parse config (a ++ [e])).tree.children ++ (parse config b).tree.children ∧
      (parse config (a ++ [m] ++ b)).diagnostics =
        (parse config (a ++ [e])).diagnostics ++ (parse config b).diagnostics := by
  have hwhole : significant (a ++ [m] ++ b) =
      a.filter (·.kind ≠ .comment) ++ m :: significant b := by
    rw [List.append_assoc, significant_append ha]
    simp [significant, hm]
  have hfirst : significant (a ++ [e]) = a.filter (·.kind ≠ .comment) := by
    rw [significant_append ha]
    simp [significant, he]
  have hend : ending (a ++ [e]) = m.span := by
    simp only [ending, List.filter_append, List.find?_append, find?_endOfInput_eq_none ha,
      Option.none_or]
    simp [he, hs]
  have hsecond : statements (.nested config.maxDepth) config.maxDepth (ending (a ++ [m] ++ b))
      (significant b) =
      statements (.nested config.maxDepth) config.maxDepth (ending b) (significant b) := by
    -- without tokens behind the semicolon it does not matter where the input ends
    by_cases hb : significant b = []
    · rw [hb, statements, statements]
    · have ham : ∀ t ∈ a ++ [m], t.kind ≠ .endOfInput := by
        simpa [or_imp, forall_and, hm] using ha
      rw [ending_append ham hb]
  have h := eq_statements ((parses_statements config.maxDepth config.maxDepth m.span
    (a.filter (·.kind ≠ .comment))).append hm (significant b) rfl (ending (a ++ [m] ++ b))
    (parses_statements config.maxDepth config.maxDepth _ _))
  simp only [parse, SyntaxTree.children_node, hwhole, hfirst, hend, h, hsecond]
  exact ⟨trivial, trivial⟩

/-- Two brackets that are never closed end at the semicolon behind them. -/
theorem parse_open_brackets_semicolon :
    let config : Config := .make false 1
    let spot (column : Int) : Span := ⟨⟨1, column, column - 1⟩, ⟨1, column + 1, column⟩⟩
    let a : List Token := [⟨.openParen, "(", "(", spot 1⟩, ⟨.openBrace, "\x7b", "\x7b", spot 2⟩]
    let m : Token := ⟨.semicolon, ";", ";", spot 3⟩
    let e : Token := ⟨.endOfInput, [], [], spot 3⟩
    let b : List Token := [⟨.number, "1", "1", spot 4⟩]
    ((∀ t ∈ a, t.kind ≠ .endOfInput) ∧ m.kind = .semicolon ∧ e.kind = .endOfInput ∧
        e.span = m.span) ∧
      (parse config (a ++ [m] ++ b)).tree.children =
          (parse config (a ++ [e])).tree.children ++ (parse config b).tree.children ∧
        (parse config (a ++ [m] ++ b)).diagnostics =
          (parse config (a ++ [e])).diagnostics ++ (parse config b).diagnostics := by
  intro config spot a m e b
  have ha : ∀ t ∈ a, t.kind ≠ .endOfInput := by decide
  exact ⟨⟨ha, rfl, rfl, rfl⟩, parse_append_semicolon config a b m e ha rfl rfl rfl⟩

end Program

end LenSyntax

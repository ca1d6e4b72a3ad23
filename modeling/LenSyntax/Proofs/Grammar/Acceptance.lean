import LenSyntax.Proofs.Grammar.Soundness
import LenSyntax.Proofs.Grammar.Completeness

/-! Programs are parsed without an error exactly if the grammar derives them. -/
namespace LenSyntax

/-- A statement starts with a token, and not with a semicolon. -/
theorem Spells.exists_cons {w : List Token} (h : Spells .statement w) :
    ∃ t v, w = t :: v ∧ t.kind ≠ .semicolon := by
  have hstart {w : List Token} (h : Spells .start w) :
      ∃ t v, w = t :: v ∧ t.kind ≠ .semicolon := by
    cases h with
    | negate ht more => exact ⟨_, _, rfl, by simp [Token.kind_of_isUnaryOperator ht]⟩
    | operand operand =>
      have ho := operand.startsOperand []
      cases w with
      | nil => cases ho
      | cons t v =>
        refine ⟨t, v, rfl, ?_⟩
        intro ht
        simp [startsOperand_cons, ht, TokenKind.startsOperand] at ho
  cases h with
  | binding ht hm value => exact ⟨_, _, rfl, by simp [ht]⟩
  | bare value => exact hstart value

/-- The first statement of a program stands in front of its end or of a semicolon. -/
theorem Derives.exists_statement {t : Token} {ts : List Token}
    (h : Derives .program (t :: ts)) (ht : t.kind ≠ .semicolon) :
    ∃ w rest, t :: ts = w ++ rest ∧ Derives .statement w ∧
      (rest = [] ∨ ∃ m v, rest = m :: v ∧ m.kind = .semicolon ∧ Derives .program v) := by
  generalize hts : t :: ts = us at h
  cases h with
  | empty => cases hts
  | semicolon hm program =>
    cases hts
    exact absurd hm ht
  | last statement => exact ⟨us, [], by simp, statement, .inl rfl⟩
  | next statement hm program => exact ⟨_, _, rfl, statement, .inr ⟨_, _, rfl, hm, program⟩⟩

/-- What follows a leading semicolon is a program. -/
theorem Derives.program_tail {t : Token} {ts : List Token} (h : Derives .program (t :: ts))
    (ht : t.kind = .semicolon) : Derives .program ts := by
  generalize hts : t :: ts = us at h
  cases h with
  | empty => cases hts
  | semicolon hm program =>
    cases hts
    exact program
  | last statement =>
    obtain ⟨u, v, rfl, hu⟩ := Spells.exists_cons statement.spells
    cases hts
    exact absurd ht hu
  | next statement hm program =>
    obtain ⟨u, v, rfl, hu⟩ := Spells.exists_cons statement.spells
    cases hts
    exact absurd ht hu

/-- The tokens between semicolons, where there are any. -/
def statementRows (ts : List Token) : List (List Token) :=
  (ts.splitOnP (·.kind = .semicolon)).filter (· ≠ [])

theorem Spells.kind_ne_semicolon {place : Place} {w : List Token} (h : Spells place w) :
    ∀ t ∈ w, t.kind ≠ .semicolon := by
  induction h with
  | binding ht hm _ ih => simpa [ht, hm] using ih
  | bare _ ih | operand _ ih | argument _ ih => exact ih
  | negate ht _ ih => simpa [Token.kind_of_isUnaryOperator ht] using ih
  | token ht _ ih =>
    refine List.forall_mem_cons.2 ⟨?_, ih⟩
    intro hm
    simp [hm, TokenKind.isAtom] at ht
  | lambda ht ha _ ih => simpa [ht, ha] using ih
  | group ho _ hc _ ihi ihm => simpa [ho, hc, or_imp, forall_and] using ⟨ihi, ihm⟩
  | product ho _ hc _ ihi ihm => simpa [ho, hc, or_imp, forall_and] using ⟨ihi, ihm⟩
  | done | noField => simp
  | operator ht _ ih => simpa [Token.kind_of_binaryOperator? ht] using ih
  | lastField ht hc _ ih => simpa [ht, hc] using ih
  | comma ht hk _ hc _ ihv ihm => simpa [ht, hk, hc, or_imp, forall_and] using ⟨ihv, ihm⟩

namespace Derives
variable {m : Token} {w v : List Token}

@[simp] theorem statementRows_nil : statementRows [] = [] := rfl

theorem statementRows_semicolon (hm : m.kind = .semicolon) (v : List Token) :
    statementRows (m :: v) = statementRows v := by
  have hsplit := List.splitOnP_append_cons (p := fun t : Token => t.kind = .semicolon) [] v
    (show decide (m.kind = .semicolon) = true by simp [hm])
  rw [List.nil_append] at hsplit
  simp [statementRows, hsplit]

/-- A statement is a row of its own. -/
theorem statementRows_append (h : Derives .statement w) {rest : List Token}
    (hr : rest = [] ∨ ∃ m v, rest = m :: v ∧ m.kind = .semicolon) :
    statementRows (w ++ rest) = w :: statementRows rest := by
  have hne : w ≠ [] := by
    obtain ⟨t, u, rfl, -⟩ := Spells.exists_cons h.spells
    exact List.cons_ne_nil t u
  have hone : w.splitOnP (·.kind = .semicolon) = [w] :=
    List.splitOnP_eq_singleton fun t ht => by simpa using Spells.kind_ne_semicolon h.spells t ht
  obtain rfl | ⟨m, v, rfl, hm⟩ := hr
  · simp [statementRows, hone, hne]
  · rw [statementRows_semicolon hm]
    simp [statementRows, List.splitOnP_append_cons, hm, hone, hne]

/-- The rows of a program are its statements. -/
theorem of_mem_statementRows (h : Derives .program v) :
    ∀ row ∈ statementRows v, Derives .statement row := by
  generalize hn : Nonterminal.program = n at h
  induction h with
  | empty => simp
  | semicolon hm _ ih =>
    rw [statementRows_semicolon hm]
    exact ih rfl
  | @last w statement =>
    have hrows := statement.statementRows_append (.inl rfl)
    rw [List.append_nil] at hrows
    simpa [hrows] using statement
  | next statement hm _ _ ih =>
    rw [statement.statementRows_append (.inr ⟨_, _, rfl, hm⟩), statementRows_semicolon hm,
      List.forall_mem_cons]
    exact ⟨statement, ih rfl⟩
  | _ => cases hn

end Derives

/-- The first statement of a derivable program is read to its end. -/
theorem Parses.finishes_statement {depth : Nat} {s : Surroundings} {t : Token}
    {ts : List Token} {p : Parsed SyntaxTree} (h : Parses depth s .statement (t :: ts) p)
    (hs : s.AwaitsClosers) (ht : t.kind ≠ .semicolon) (hd : Derives .program (t :: ts)) :
    OnlyTooDeep s.limit p.diagnostics ∧ ∃ w, t :: ts = w ++ p.rest ∧ Derives .statement w ∧
      (p.rest = [] ∨ ∃ m v, p.rest = m :: v ∧ m.kind = .semicolon ∧ Derives .program v) := by
  obtain ⟨w, rest, hw, hstatement, hrest⟩ := hd.exists_statement ht
  have hsync : s.atSync rest := by
    obtain rfl | ⟨m, v, rfl, hm, -⟩ := hrest
    · rfl
    · simp [Surroundings.atSync, Surroundings.awaits, hm]
  obtain ⟨hone, rfl⟩ := h.accepts hs w rest hw hstatement.spells hsync
  exact ⟨hone, w, hw, hstatement, hrest⟩

/-- Of derivable statements each is read as one tree, and only those that are nested too deeply are
read with an error. -/
theorem ParsesStatements.finishes {depth : Nat} {s : Surroundings} {ts : List Token}
    {p : Parsed (List SyntaxTree)} (h : ParsesStatements depth s ts p) (hs : s.AwaitsClosers)
    (hd : Derives .program ts) :
    OnlyTooDeep s.limit p.diagnostics ∧ p.value.length = (statementRows ts).length := by
  induction h with
  | nil => exact ⟨onlyTooDeep_nil _, rfl⟩
  | semicolon ht more ih =>
    rw [Derives.statementRows_semicolon ht]
    exact ih (hd.program_tail ht)
  | last ht one hr =>
    obtain ⟨hone, w, hw, hstatement, -⟩ := one.finishes_statement hs ht hd
    rw [hw, hstatement.statementRows_append (.inl hr), hr]
    exact ⟨hone, rfl⟩
  | next ht one hr hm more ih =>
    obtain ⟨hone, w, hw, hstatement, hrest⟩ := one.finishes_statement hs ht hd
    rw [hr] at hw hrest
    obtain hrest | ⟨m, v, hrest, -, hv⟩ := hrest
    · cases hrest
    · cases hrest
      obtain ⟨hdeep, hlength⟩ := ih hv
      rw [hw, hstatement.statementRows_append (.inr ⟨_, _, rfl, hm⟩),
        Derives.statementRows_semicolon hm]
      exact ⟨(onlyTooDeep_append _ _ _).2 ⟨hone, hdeep⟩, congrArg (· + 1) hlength⟩
  | skip ht one hr hu hskip more ih =>
    obtain ⟨-, w, hw, -, hrest⟩ := one.finishes_statement hs ht hd
    rw [hr] at hrest
    obtain hrest | ⟨m, v, hrest, hm, -⟩ := hrest
    · cases hrest
    · cases hrest
      exact absurd hm hu

/-- Derivable statements are read without an error, unless they are nested too deeply. -/
theorem ParsesStatements.accepts {depth : Nat} {s : Surroundings} {ts : List Token}
    {p : Parsed (List SyntaxTree)} (h : ParsesStatements depth s ts p) (hs : s.closers = [])
    (hp : Shallow s.limit p.diagnostics) (hd : Derives .program ts) :
    Diagnostics.hasErrors p.diagnostics = false :=
  (h.finishes (by simp [Surroundings.AwaitsClosers, hs]) hd).1.hasErrors_eq_false hp

namespace Program

/-- If nothing is nested too deeply, the parser reports no error exactly if the tokens in front of
the end of the input, without the comments, are derivable. -/
theorem hasErrors_parse_eq_false_iff (config : Config) (tokens : List Token)
    (hp : ∀ d ∈ (parse config tokens).diagnostics,
      d.message ≠ (SyntaxFault.tooDeep config.maxDepth).message) :
    Diagnostics.hasErrors (parse config tokens).diagnostics = false ↔
      Derives .program (significant tokens) := by
  have h := parses_statements config.maxDepth config.maxDepth (ending tokens) (significant tokens)
  constructor
  · exact h.derives
  · exact h.accepts (by simp) hp

/-- A call with an empty product as its argument is derivable. -/
theorem derives_call_product :
    let config : Config := .make false 1
    let spot (column : Int) : Span := ⟨⟨1, column, column - 1⟩, ⟨1, column + 1, column⟩⟩
    let tokens : List Token := [⟨.identifier, "f", "f", spot 1⟩,
      ⟨.openBrace, "\x7b", "\x7b", spot 2⟩, ⟨.closeBrace, "\x7d", "\x7d", spot 3⟩,
      ⟨.semicolon, ";", ";", spot 4⟩, ⟨.endOfInput, [], [], spot 5⟩]
    (∀ d ∈ (parse config tokens).diagnostics,
        d.message ≠ (SyntaxFault.tooDeep config.maxDepth).message) ∧
      Derives .program (significant tokens) := by
  intro config spot tokens
  have hp : ∀ d ∈ (parse config tokens).diagnostics,
      d.message ≠ (SyntaxFault.tooDeep config.maxDepth).message := by decide +kernel
  have hd : Diagnostics.hasErrors (parse config tokens).diagnostics = false := by decide +kernel
  exact ⟨hp, (hasErrors_parse_eq_false_iff config tokens hp).1 hd⟩

end Program

end LenSyntax

import LenSyntax.Proofs.Grammar.Agreement
import LenSyntax.Proofs.Grammar.Skipping

/-! Where faults point that tell of a token. They are found where no synchronization point is, so
they point neither at a semicolon nor at the end of the input. -/
namespace LenSyntax

/-- Whether a fault tells what stands where something else was expected. -/
def SyntaxFault.TellsFound : SyntaxFault → Prop
  | unexpected _ | afterStatement _ | afterField _ | notFieldName _ => True
  | _ => False

/-- What was found is told in words of its own. -/
theorem SyntaxFault.TellsFound.of_message_eq {fault other : SyntaxFault} (h : fault.TellsFound)
    (hm : fault.message = other.message) : other.TellsFound := by
  have htake := congrArg (List.take 20) hm
  cases other with
  | unexpected | afterStatement | afterField | notFieldName => trivial
  | missingExpression | missingFieldName | openGroup | openProduct | tooDeep | invalidToken
  | duplicateField =>
    cases fault with
    | unexpected | afterStatement | afterField | notFieldName =>
      simp [message, Text.ofString] at htake
    | missingExpression | missingFieldName | openGroup | openProduct | tooDeep | invalidToken
    | duplicateField => exact h.elim

/-- If a diagnostic tells what was found, it points at a token of `ts` that is no semicolon. -/
def Diagnostic.Points (ts : List Token) (d : Diagnostic) : Prop :=
  ∃ fault : SyntaxFault, d.message = fault.message ∧
    (fault.TellsFound → ∃ t ∈ ts, t.kind ≠ .semicolon ∧ d.span = t.span)

/-- What has been read in front of `ts` leaves the end of it, and all diagnostics point into it. -/
structure Points (ts : List Token) (ds : List Diagnostic) (rest : List Token) : Prop where
  rest_suffix : rest <:+ ts
  points : ∀ d ∈ ds, d.Points ts

section Points
variable {s : Surroundings} {fault : SyntaxFault} {ts us vs : List Token} {ds es : List Diagnostic}

theorem Diagnostic.Points.mono {d : Diagnostic} (h : d.Points us) (hs : us <:+ ts) :
    d.Points ts := by
  obtain ⟨fault, hm, hpoints⟩ := h
  refine ⟨fault, hm, fun htells => ?_⟩
  obtain ⟨t, ht, hkind, hspan⟩ := hpoints htells
  exact ⟨t, hs.subset ht, hkind, hspan⟩

theorem Diagnostic.points_of_not_tellsFound {d : Diagnostic} (hf : ¬ fault.TellsFound)
    (hm : d.message = fault.message) : d.Points ts := ⟨fault, hm, fun h => absurd h hf⟩

namespace Points

theorem nil (hs : us <:+ ts) : Points ts [] us := ⟨hs, List.forall_mem_nil _⟩

theorem mono (h : Points us ds vs) (hs : us <:+ ts) : Points ts ds vs :=
  ⟨h.rest_suffix.trans hs, fun d hd => (h.points d hd).mono hs⟩

theorem append (h : Points ts ds us) (h' : Points us es vs) : Points ts (ds ++ es) vs :=
  ⟨h'.rest_suffix.trans h.rest_suffix,
    List.forall_mem_append.2 ⟨h.points, (h'.mono h.rest_suffix).points⟩⟩

/-- One more token is taken. -/
theorem tail {t : Token} (h : Points ts ds us) (hr : us = t :: vs) : Points ts ds vs :=
  ⟨(hr ▸ List.suffix_cons t vs : vs <:+ us).trans h.rest_suffix, h.points⟩

/-- Two more tokens in front of what has been read. -/
theorem named (h : Points ts ds us) (t mark : Token) : Points (t :: mark :: ts) ds us :=
  h.mono ((List.suffix_cons _ _).trans (List.suffix_cons _ _))

end Points

theorem points_missing (hf : ¬ fault.TellsFound) :
    Points ts (s.missing fault ts).diagnostics (s.missing fault ts).rest :=
  ⟨List.suffix_rfl, List.forall_mem_singleton.2 (Diagnostic.points_of_not_tellsFound hf rfl)⟩

theorem points_recover (hs : fault.TellsFound → ¬ s.atSync ts) :
    Points ts (s.recover fault ts).diagnostics (s.recover fault ts).rest := by
  refine ⟨s.recover_suffix fault ts, List.forall_mem_singleton.2 ⟨fault, rfl, fun hf => ?_⟩⟩
  cases ts with
  | nil => exact absurd rfl (hs hf)
  | cons t ts =>
    have ht := Surroundings.kind_ne_semicolon_of_not_atSync (hs hf)
    exact ⟨t, List.mem_cons_self, ht, rfl⟩

theorem points_noField : Points ts (ExpressionParser.noField s ts).diagnostics
    (ExpressionParser.noField s ts).rest := by
  unfold ExpressionParser.noField
  split
  · exact points_missing False.elim
  · next hs => exact points_recover fun _ => hs

end Points

theorem Parses.points {depth : Nat} {s : Surroundings} {part : Part} {ts : List Token}
    {p : Parsed SyntaxTree} (h : Parses depth s part ts p) : Points ts p.diagnostics p.rest := by
  induction h with
  | literal | name | invalid | product => exact .nil (List.suffix_cons _ _)
  | lambda ht ha body ih => exact ih.named _ _
  | closed inside hr ht ih => exact ih.tail hr
  | @unclosed _ _ b ts p inside hr ih =>
    have hf : ¬ (b.unclosed p.value.span.start).TellsFound := by cases b <;> exact id
    exact ih.append ⟨List.suffix_rfl,
      List.forall_mem_singleton.2 (Diagnostic.points_of_not_tellsFound hf rfl)⟩
  | missing ho hs => exact points_missing False.elim
  | unexpected ho hs => exact points_recover fun _ => hs
  | group ht body hs ih => exact ih.mono (List.suffix_cons _ _)
  | leftover ht body hs hq ih =>
    subst hq
    exact (ih.append (points_recover fun _ => hs)).mono (List.suffix_cons _ _)
  | comma before he field hr ht ihb ihf => exact ihb.append (ihf.tail hr)
  | skip before he field hc hs hr ihb ihf =>
    subst hr
    exact ihb.append (ihf.append (points_recover fun _ => hs))
  | lastField before he field hc hs ihb ihf => exact ihb.append ihf
  | noField before he ih => exact ih
  | @field _ _ before t _ _ _ ht hc value ih =>
    have hf : ¬ (SyntaxFault.duplicateField t.value).TellsFound := id
    refine (ih.append ⟨List.suffix_rfl, ?_⟩).named _ _
    split
    · exact List.forall_mem_singleton.2 (Diagnostic.points_of_not_tellsFound hf rfl)
    · exact List.forall_mem_nil _
  | notField hn => exact points_noField
  | function operand ih => exact ih
  | call function ho argument ihf iha => exact ihf.append iha
  | application calls ho ih => exact ih
  | unary application hu ih => exact ih
  | negate ht operand ih => exact ih.mono (List.suffix_cons _ _)
  | first operand ih => exact ih
  | operation left hr ht hl right ihl ihr => exact (ihl.tail hr).append ihr
  | expression operations hn ih => exact ih
  | tooDeep => exact points_recover False.elim
  | binding ht hm value ih => exact ih.named _ _
  | bare hn value ih => exact ih

theorem ParsesStatements.points {depth : Nat} {s : Surroundings} {ts : List Token}
    {p : Parsed (List SyntaxTree)} (h : ParsesStatements depth s ts p) (hs : s.closers = []) :
    Points ts p.diagnostics p.rest := by
  induction h with
  | nil => exact .nil List.suffix_rfl
  | semicolon ht more ih => exact ih.mono (List.suffix_cons _ _)
  | last ht one hr => exact ⟨List.nil_suffix, one.points.points⟩
  | next ht one hr hm more ih => exact (one.points.tail hr).append ih
  | @skip t ts p u rest r q ht one hr hu hskip more ih =>
    subst hskip
    have hsync := Surroundings.not_atSync_of_closers_eq_nil hs hu rest
    have hone := one.points
    rw [hr] at hone
    exact (hone.append (points_recover fun _ => hsync)).append ih

namespace Program

/-- A diagnostic that tells what was found points at a token in front of the end of the input, and
at no semicolon. -/
theorem points_parse (config : Config) (tokens : List Token) {d : Diagnostic}
    (hd : d ∈ (parse config tokens).diagnostics) {fault : SyntaxFault} (hf : fault.TellsFound)
    (hm : d.message = fault.message) :
    ∃ t ∈ significant tokens, t.kind ≠ .semicolon ∧ d.span = t.span := by
  have h := (parses_statements config.maxDepth config.maxDepth (ending tokens)
    (significant tokens)).points rfl
  obtain ⟨other, hother, hpoints⟩ := h.points d hd
  exact hpoints (hf.of_message_eq (hm.symm.trans hother))

end Program

end LenSyntax

import LenSyntax.Proofs.Grammar.Pointing

/-! What syntax errors are about. Each of them has the place of a token, or that of the end of the
input, and never a place in between. -/
namespace LenSyntax

/-- Each diagnostic is about one of the tokens `ts` or about the end of the input. -/
def Anchored (ending : Span) (ts : List Token) (ds : List Diagnostic) : Prop :=
  ∀ d ∈ ds, d.span = ending ∨ ∃ t ∈ ts, d.span = t.span

section
variable {ending : Span} {s : Surroundings} {ts us : List Token} {ds es : List Diagnostic}

namespace Anchored

theorem nil : Anchored ending ts [] := List.forall_mem_nil _

theorem append (hd : Anchored ending ts ds) (he : Anchored ending ts es) :
    Anchored ending ts (ds ++ es) := List.forall_mem_append.2 ⟨hd, he⟩

theorem mono (h : Anchored ending us ds) (hs : us <:+ ts) : Anchored ending ts ds := by
  intro d hd
  obtain hend | ⟨t, ht, hspan⟩ := h d hd
  · exact .inl hend
  · exact .inr ⟨t, hs.subset ht, hspan⟩

/-- Two more tokens in front. -/
theorem named (h : Anchored ending ts ds) (t mark : Token) :
    Anchored ending (t :: mark :: ts) ds :=
  h.mono ((List.suffix_cons _ _).trans (List.suffix_cons _ _))

end Anchored

/-- What comes next is a token or the end of the input. -/
theorem anchored_here (message : Text) (ts : List Token) :
    Anchored s.ending ts [.error message (s.here ts)] := by
  refine List.forall_mem_singleton.2 ?_
  cases ts with
  | nil => exact .inl rfl
  | cons t ts => exact .inr ⟨t, List.mem_cons_self, rfl⟩

end

theorem Parses.anchored {depth : Nat} {s : Surroundings} {part : Part} {ts : List Token}
    {p : Parsed SyntaxTree} (h : Parses depth s part ts p) :
    Anchored s.ending ts p.diagnostics := by
  induction h with
  | literal | name | invalid | product => exact .nil
  | lambda ht ha body ih => exact ih.named _ _
  | closed inside hr ht ih => exact ih
  | unclosed inside hr ih =>
    exact Anchored.append ih ((anchored_here _ _).mono inside.points.rest_suffix)
  | missing ho hs => exact anchored_here _ _
  | unexpected ho hs => exact anchored_here _ _
  | group ht body hs ih => exact ih.mono (List.suffix_cons _ _)
  | leftover ht body hs hq ih =>
    subst hq
    exact (ih.append ((anchored_here _ _).mono body.points.rest_suffix)).mono (List.suffix_cons _ _)
  | comma before he field hr ht ihb ihf => exact ihb.append (ihf.mono before.points.rest_suffix)
  | skip before he field hc hs hr ihb ihf =>
    have hfield := before.points.rest_suffix
    have hskip := field.points.rest_suffix.trans hfield
    subst hr
    exact ihb.append ((ihf.mono hfield).append ((anchored_here _ _).mono hskip))
  | lastField before he field hc hs ihb ihf =>
    exact ihb.append (ihf.mono before.points.rest_suffix)
  | noField before he ih => exact ih
  | @field _ _ _ t _ _ _ ht hc value ih =>
    refine (ih.named _ _).append ?_
    split
    · exact List.forall_mem_singleton.2 (.inr ⟨t, List.mem_cons_self, rfl⟩)
    · exact .nil
  | notField hn =>
    unfold ExpressionParser.noField
    split <;> exact anchored_here _ _
  | function operand ih => exact ih
  | call function ho argument ihf iha => exact ihf.append (iha.mono function.points.rest_suffix)
  | application calls ho ih => exact ih
  | unary application hu ih => exact ih
  | negate ht operand ih => exact ih.mono (List.suffix_cons _ _)
  | first operand ih => exact ih
  | operation left hr ht hl right ihl ihr =>
    exact ihl.append (ihr.mono (left.points.tail hr).rest_suffix)
  | expression operations hn ih => exact ih
  | tooDeep => exact anchored_here _ _
  | binding ht hm value ih => exact ih.named _ _
  | bare hn value ih => exact ih

theorem ParsesStatements.anchored {depth : Nat} {s : Surroundings} {ts : List Token}
    {p : Parsed (List SyntaxTree)} (h : ParsesStatements depth s ts p) :
    Anchored s.ending ts p.diagnostics := by
  induction h with
  | nil => exact .nil
  | semicolon ht more ih => exact ih.mono (List.suffix_cons _ _)
  | last ht one hr => exact one.anchored
  | next ht one hr hm more ih =>
    exact one.anchored.append (ih.mono (one.points.tail hr).rest_suffix)
  | @skip t ts p u rest r q ht one hr hu hskip more ih =>
    subst hskip
    have hrest := one.points.rest_suffix
    rw [hr] at hrest
    have hbehind := (s.recover_suffix (.afterStatement (.token u.raw)) (u :: rest)).trans hrest
    exact (one.anchored.append ((anchored_here _ _).mono hrest)).append (ih.mono hbehind)

/-- Each syntax error has the place of a token that the parser sees, or of the end of the input. -/
theorem Program.anchored_parse (config : Config) (tokens : List Token) :
    Anchored (ending tokens) (significant tokens) (parse config tokens).diagnostics :=
  (parses_statements config.maxDepth config.maxDepth (ending tokens)
    (significant tokens)).anchored

end LenSyntax

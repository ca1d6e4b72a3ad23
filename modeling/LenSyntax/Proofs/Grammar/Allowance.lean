import LenSyntax.Arena.OfTree
import LenSyntax.Proofs.Grammar.Completeness
import LenSyntax.Token.Stream

/-! More depth than is needed. The depth limit is looked at only where an expression would go beyond
it, and that is reported. So where nothing is reported to be nested too deeply, the parser does
under a higher limit all that it has done under the lower one. -/
namespace LenSyntax

/-- The same surroundings where expressions may nest so much deeper. -/
def Surroundings.deepened (s : Surroundings) (more : Nat) : Surroundings :=
  ⟨s.limit + more, s.ending, s.closers⟩

namespace Surroundings
variable (s : Surroundings) (more : Nat)

theorem skip_deepened (nesting : Nat) (stop : Position) (ts : List Token) :
    (s.deepened more).skip nesting stop ts = s.skip nesting stop ts := by
  induction ts generalizing nesting stop with
  | nil => rfl
  | cons t ts ih =>
    rw [skip, skip, ih]
    rfl

theorem here_deepened (ts : List Token) : (s.deepened more).here ts = s.here ts := by
  cases ts <;> rfl

theorem atSync_deepened (ts : List Token) : (s.deepened more).atSync ts = s.atSync ts := by
  cases ts <;> rfl

theorem endsFields_deepened (ts : List Token) :
    (s.deepened more).endsFields ts = s.endsFields ts := by
  rw [endsFields, endsFields, atSync_deepened]

theorem missing_deepened (fault : SyntaxFault) (ts : List Token) :
    (s.deepened more).missing fault ts = s.missing fault ts := by
  rw [missing, missing, here_deepened]

theorem recover_deepened (fault : SyntaxFault) (ts : List Token) :
    (s.deepened more).recover fault ts = s.recover fault ts := by
  rw [recover, recover, here_deepened, skip_deepened]

theorem noField_deepened (ts : List Token) :
    ExpressionParser.noField (s.deepened more) ts = ExpressionParser.noField s ts := by
  rw [ExpressionParser.noField, ExpressionParser.noField, atSync_deepened, missing_deepened,
    recover_deepened]

end Surroundings

section Deepened
variable {depth : Nat} {s : Surroundings} {part : Part} {ts : List Token}

open Surroundings (atSync_deepened endsFields_deepened here_deepened missing_deepened
  noField_deepened recover_deepened)

/-- What is read without reaching the limit is read alike where expressions may nest deeper. -/
theorem Parses.deepened {p : Parsed SyntaxTree} (h : Parses depth s part ts p)
    (hp : Shallow s.limit p.diagnostics) (more : Nat) :
    Parses (depth + more) (s.deepened more) part ts p := by
  induction h with
  | literal ht => exact .literal ht
  | name ht ha => exact .name ht ha
  | invalid ht => exact .invalid ht
  | lambda ht ha body ih => exact .lambda ht ha (ih hp)
  | closed inside hr ht ih => exact .closed (ih hp) hr ht
  | @unclosed _ s b ts p inside hr ih =>
    have h := Parses.unclosed (s := s.deepened more) (ih ((shallow_append _ _ _).1 hp).1) hr
    rwa [here_deepened] at h
  | missing ho hs =>
    rw [← missing_deepened _ more]
    exact .missing ho (by rwa [atSync_deepened])
  | unexpected ho hs =>
    rw [← recover_deepened _ more]
    exact .unexpected ho (by rwa [atSync_deepened])
  | group ht body hs ih => exact .group ht (ih hp) (by rwa [atSync_deepened])
  | leftover ht body hs hq ih =>
    exact .leftover ht (ih ((shallow_append _ _ _).1 hp).1) (by rwa [atSync_deepened])
      (by rw [hq, recover_deepened])
  | product ht => exact .product ht
  | comma before he field hr ht ihb ihf =>
    obtain ⟨hb, hf⟩ := (shallow_append _ _ _).1 hp
    exact .comma (ihb hb) (by rwa [endsFields_deepened]) (ihf hf) hr ht
  | skip before he field hc hs hr ihb ihf =>
    obtain ⟨hb, hmore⟩ := (shallow_append _ _ _).1 hp
    exact .skip (ihb hb) (by rwa [endsFields_deepened]) (ihf ((shallow_append _ _ _).1 hmore).1) hc
      (by rwa [atSync_deepened]) (by rw [hr, recover_deepened])
  | lastField before he field hc hs ihb ihf =>
    obtain ⟨hb, hf⟩ := (shallow_append _ _ _).1 hp
    exact .lastField (ihb hb) (by rwa [endsFields_deepened]) (ihf hf) hc (by rwa [atSync_deepened])
  | noField before he ih => exact .noField (ih hp) (by rwa [endsFields_deepened])
  | field ht hc value ih => exact .field ht hc (ih ((shallow_append _ _ _).1 hp).1)
  | notField hn =>
    rw [← noField_deepened _ more]
    exact .notField hn
  | function operand ih => exact .function (ih hp)
  | call function ho argument ihf iha =>
    obtain ⟨hf, ha⟩ := (shallow_append _ _ _).1 hp
    exact .call (ihf hf) ho (iha ha)
  | application calls ho ih => exact .application (ih hp) ho
  | unary application hu ih => exact .unary (ih hp) hu
  | negate ht operand ih => exact .negate ht (ih hp)
  | first operand ih => exact .first (ih hp)
  | operation left hr ht hl right ihl ihr =>
    obtain ⟨hleft, hright⟩ := (shallow_append _ _ _).1 hp
    exact .operation (ihl hleft) hr ht hl (ihr hright)
  | @expression depth _ _ _ _ operations hn ih =>
    rw [Nat.add_right_comm]
    exact .expression (ih hp) hn
  -- the one rule that looks at the limit reports it
  | tooDeep => exact absurd rfl (hp _ (List.mem_singleton_self _))
  | binding ht hm value ih => exact .binding ht hm (ih hp)
  | bare hn value ih => exact .bare hn (ih hp)

theorem ParsesStatements.deepened {p : Parsed (List SyntaxTree)}
    (h : ParsesStatements depth s ts p) (hp : Shallow s.limit p.diagnostics) (more : Nat) :
    ParsesStatements (depth + more) (s.deepened more) ts p := by
  induction h with
  | nil => exact .nil
  | semicolon ht _ ih => exact .semicolon ht (ih hp)
  | last ht one hr => exact .last ht (one.deepened hp more) hr
  | next ht one hr hm _ ih =>
    obtain ⟨hone, hothers⟩ := (shallow_append _ _ _).1 hp
    exact .next ht (one.deepened hone more) hr hm (ih hothers)
  | skip ht one hr hu hskip _ ih =>
    obtain ⟨hfirst, hothers⟩ := (shallow_append _ _ _).1 hp
    exact .skip ht (one.deepened ((shallow_append _ _ _).1 hfirst).1 more) hr hu
      (by rw [hskip, recover_deepened]) (ih hothers)

end Deepened

namespace Program

/-- If nothing is nested too deeply for one limit, a higher limit changes neither the arena, with
its root, nor the diagnostics. -/
theorem parse_of_maxDepth_le {config deeper : Config}
    (hle : config.maxDepth ≤ deeper.maxDepth) (tokens : List Token)
    (hp : ∀ d ∈ (parse config tokens).diagnostics,
      d.message ≠ (SyntaxFault.tooDeep config.maxDepth).message) :
    (parse deeper tokens).tree.arena = (parse config tokens).tree.arena ∧
      (parse deeper tokens).diagnostics = (parse config tokens).diagnostics := by
  obtain ⟨more, hmore⟩ := Nat.exists_eq_add_of_le hle
  have h := (parses_statements config.maxDepth config.maxDepth (ending tokens)
    (significant tokens)).deepened hp more
  rw [Surroundings.deepened, ← hmore] at h
  have hparse : parse deeper tokens = parse config tokens := by
    rw [parse, eq_statements h]
    rfl
  rw [hparse]
  exact ⟨rfl, rfl⟩

/-- Of two brackets that are never closed nothing else is told at a depth of a hundred than at one
of four, which is enough for them. -/
theorem parse_open_brackets_of_maxDepth_le :
    let config : Config := .make true 4
    let deeper : Config := .make false 100
    let tokens := (Text.tokenStream config "(1 + (2").tokens
    (config.maxDepth ≤ deeper.maxDepth ∧ ∀ d ∈ (parse config tokens).diagnostics,
        d.message ≠ (SyntaxFault.tooDeep config.maxDepth).message) ∧
      (parse deeper tokens).tree.arena = (parse config tokens).tree.arena ∧
        (parse deeper tokens).diagnostics = (parse config tokens).diagnostics := by
  intro config deeper tokens
  have hle : config.maxDepth ≤ deeper.maxDepth := by decide
  have hp : ∀ d ∈ (parse config tokens).diagnostics,
      d.message ≠ (SyntaxFault.tooDeep config.maxDepth).message := by decide +kernel
  exact ⟨⟨hle, hp⟩, parse_of_maxDepth_le hle tokens hp⟩

end Program

end LenSyntax

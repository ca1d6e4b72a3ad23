import LenSyntax.Proofs.Grammar.DepthLimit
import LenSyntax.Proofs.Grammar.Printing

/-! How deeply trees are nested. An expression is entered with one less left to enter inside it, so
the tree that is read of it is nested no more deeply than what was left in front of it. -/
namespace LenSyntax

namespace SyntaxTree

theorem nestingFrom_le_iff {kind : NodeKind} {n place : Nat} {ts : List SyntaxTree}
    (hkind : ∀ i, kind.nests i = false) :
    nestingFrom kind place ts ≤ n ↔ ∀ t ∈ ts, t.nesting ≤ n := by
  induction ts generalizing place with
  | nil => simp [nestingFrom]
  | cons t ts ih =>
    rw [nestingFrom, hkind, Nat.max_le, ih, List.forall_mem_cons]
    rfl

/-- Around trees none of which counts as nested in it a node is nested as deeply as they are. -/
theorem nesting_le_iff {kind : NodeKind} {text : Text} {span : Span} {n : Nat}
    {children : List SyntaxTree} (hkind : ∀ i, kind.nests i = false) :
    (node kind text span children).nesting ≤ n ↔ ∀ t ∈ children, t.nesting ≤ n := by
  rw [nesting, nestingFrom_le_iff hkind]

theorem nesting_leaf_le (kind : NodeKind) (text : Text) (span : Span) (n : Nat) :
    (node kind text span []).nesting ≤ n := by
  rw [nesting, nestingFrom]
  exact Nat.zero_le n

theorem nesting_single (kind : NodeKind) (text : Text) (span : Span) (t : SyntaxTree) :
    (node kind text span [t]).nesting = t.nesting + if kind.nests 0 then 1 else 0 := by
  simp [nesting, nestingFrom]

theorem nesting_pair (kind : NodeKind) (text : Text) (span : Span) (t u : SyntaxTree) :
    (node kind text span [t, u]).nesting =
      max (t.nesting + if kind.nests 0 then 1 else 0)
        (u.nesting + if kind.nests 1 then 1 else 0) := by
  simp [nesting, nestingFrom]

end SyntaxTree

open SyntaxTree

/-- How deeply a part may be nested where `depth` more expressions may be entered. -/
def Part.bound (depth : Nat) : Part → Nat
  | expression _ | statement => depth
  | _ => depth + 1

theorem Surroundings.nesting_recover_le (s : Surroundings) (fault : SyntaxFault) (ts : List Token)
    (n : Nat) : (s.recover fault ts).value.nesting ≤ n := nesting_leaf_le _ _ _ n

theorem nesting_noField_le (s : Surroundings) (ts : List Token) (n : Nat) :
    (ExpressionParser.noField s ts).value.nesting ≤ n := by
  unfold ExpressionParser.noField
  split <;> exact nesting_leaf_le _ _ _ n

section Parses
variable {depth : Nat} {s : Surroundings} {part : Part} {ts : List Token} {p : Parsed SyntaxTree}

theorem Parses.nesting_bracket {b : Bracket} (h : Parses depth s (.inside b) ts p) (span : Span) :
    (node b.node [] span p.value.children).nesting = p.value.nesting := by
  rw [h.inside_value, nesting, nesting]
  rfl

theorem Parses.nesting_adding (h : Parses depth s .fields ts p) {more : Parsed (List SyntaxTree)}
    {n : Nat} (hp : p.value.nesting ≤ n) (hmore : ∀ t ∈ more.value, t.nesting ≤ n) :
    (p.adding more).value.nesting ≤ n := by
  have hkind (i : Nat) : NodeKind.product.nests i = false := rfl
  rw [h.fields_value rfl, nesting_le_iff hkind] at hp
  rw [Parsed.adding, nesting_le_iff hkind]
  simpa [or_imp, forall_and] using ⟨hp, hmore⟩

/-- What the parser reads is nested no more deeply than it may enter expressions. -/
theorem Parses.nesting_le (h : Parses depth s part ts p) : p.value.nesting ≤ part.bound depth := by
  induction h with
  | literal | name | invalid | missing | unexpected | product | tooDeep =>
    exact nesting_leaf_le _ _ _ _
  | notField => exact nesting_noField_le _ _ _
  | lambda ht ha body ih | group ht body hs ih | field ht hc value ih =>
    rw [nesting_single]
    exact Nat.succ_le_succ ih
  | binding ht hm value ih =>
    rw [nesting_single]
    exact ih
  | closed inside hr ht ih | unclosed inside hr ih =>
    rw [inside.nesting_bracket]
    exact ih
  | @leftover depth s t ts p q ht body hs hq ih =>
    have hskip : q.value.nesting ≤ depth + 1 := hq ▸ s.nesting_recover_le _ _ _
    rw [nesting_pair]
    exact Nat.max_le.2 ⟨Nat.succ_le_succ ih, hskip⟩
  | comma before he field hr ht ihb ihf | lastField before he field hc hs ihb ihf =>
    exact before.nesting_adding ihb (List.forall_mem_singleton.2 ihf)
  | skip before he field hc hs hr ihb ihf =>
    subst hr
    exact before.nesting_adding ihb (List.forall_mem_cons.2
      ⟨ihf, List.forall_mem_singleton.2 (Surroundings.nesting_recover_le _ _ _ _)⟩)
  | call function ho argument ihf iha =>
    rw [nesting_pair]
    exact Nat.max_le.2 ⟨ihf, iha⟩
  | negate ht operand ih =>
    rw [ExpressionParser.negate, nesting_single]
    exact ih
  | operation left hr ht hl right ihl ihr =>
    rw [nesting_pair]
    exact Nat.max_le.2 ⟨ihl, Nat.succ_le_succ ihr⟩
  | noField before he ih => exact ih
  | function operand ih | application calls ho ih | unary application hu ih => exact ih
  | first operand ih | expression operations hn ih | bare hn value ih => exact ih

theorem ParsesStatements.nesting_le {p : Parsed (List SyntaxTree)}
    (h : ParsesStatements depth s ts p) : ∀ t ∈ p.value, t.nesting ≤ depth := by
  induction h with
  | nil => simp
  | semicolon ht more ih => exact ih
  | last ht one hr => exact List.forall_mem_singleton.2 one.nesting_le
  | next ht one hr hm more ih => exact List.forall_mem_cons.2 ⟨one.nesting_le, ih⟩
  | skip ht one hr hu hskip more ih =>
    subst hskip
    exact List.forall_mem_cons.2 ⟨one.nesting_le, List.forall_mem_cons.2
      ⟨Surroundings.nesting_recover_le _ _ _ _, ih⟩⟩

end Parses

namespace Program

/-- No tree is nested more deeply than the limit allows. -/
theorem nesting_parse_le (config : Config) (tokens : List Token) :
    (parse config tokens).tree.nesting ≤ config.maxDepth :=
  (nesting_le_iff fun _ => rfl).2 (parses_statements _ _ _ _).nesting_le

end Program

end LenSyntax

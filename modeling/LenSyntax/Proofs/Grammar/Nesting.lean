import LenSyntax.Proofs.Grammar.Coherence
import LenSyntax.Proofs.Token.Extension

/-! The spans of a tree nest as its nodes do. Recovery leaves nodes that are empty, stand in front of
a token not yet read or end before the tokens of their node do; still no child reaches out of its
parent or into the next child. -/
namespace LenSyntax

open SyntaxTree

namespace SyntaxTree

/-- The children of a node lie inside its span, one behind the other. -/
structure Encloses (t : SyntaxTree) : Prop where
  within : ∀ c ∈ t.children, c.span.Within t.span
  apart : t.children.Pairwise fun c d => c.span.stop.offset ≤ d.span.start.offset

/-- At every node the children lie inside, one behind the other. -/
def Nested (t : SyntaxTree) : Prop := ∀ n ∈ t.nodes, n.Encloses

section Node
variable {kind : NodeKind} {text : Text} {span : Span} {children : List SyntaxTree}
  {t u : SyntaxTree}

theorem nested_node :
    (node kind text span children).Nested ↔
      (node kind text span children).Encloses ∧ ∀ c ∈ children, c.Nested :=
  forall_mem_nodes kind text span children

theorem nested_leaf : (node kind text span []).Nested :=
  nested_node.2 ⟨⟨by simp, .nil⟩, by simp⟩

theorem nested_single (ht : t.Nested) (hin : t.span.Within span) :
    (node kind text span [t]).Nested :=
  nested_node.2 ⟨⟨by simpa using hin, List.pairwise_singleton _ _⟩, by simpa using ht⟩

theorem nested_pair (ht : t.Nested) (hu : u.Nested) (hin : t.span.Within span)
    (hin' : u.span.Within span) (hle : t.span.stop.offset ≤ u.span.start.offset) :
    (node kind text span [t, u]).Nested :=
  nested_node.2 ⟨⟨by simpa using ⟨hin, hin'⟩, List.pairwise_pair.2 hle⟩, by simpa using ⟨ht, hu⟩⟩

/-- A node may reach further than what it stands for. -/
theorem Nested.widen (h : (node kind text span children).Nested) {kind' : NodeKind} {text' : Text}
    {span' : Span} (hin : span.Within span') : (node kind' text' span' children).Nested := by
  rw [nested_node] at h ⊢
  refine ⟨⟨?_, h.1.apart⟩, h.2⟩
  intro c hc
  have hold := h.1.within c hc
  exact ⟨Int.le_trans hin.1 hold.1, Int.le_trans hold.2 hin.2⟩

end Node

end SyntaxTree

/-- A product goes on with a tree behind it. -/
theorem Parsed.nested_adding {p : Parsed SyntaxTree} {t : SyntaxTree} (hp : p.value.Nested)
    (ht : t.Nested) (hle : p.value.span.stop.offset ≤ t.span.start.offset)
    (hord : p.value.span.start.offset ≤ p.value.span.stop.offset)
    (hord' : t.span.start.offset ≤ t.span.stop.offset) (ds : List Diagnostic)
    (rest : List Token) : (p.adding ⟨[t], ds, rest⟩).value.Nested := by
  obtain ⟨⟨kind, text, span, children⟩, _, _⟩ := p
  simp only [span_node] at hle hord
  rw [nested_node] at hp
  refine nested_node.2 ⟨⟨?_, ?_⟩, ?_⟩
  · intro c hc
    simp only [children_node, List.mem_append, List.mem_singleton] at hc
    obtain hc | rfl := hc
    · obtain ⟨hstart, hstop⟩ := hp.1.within c hc
      rw [span_node] at hstart hstop
      exact ⟨hstart, by simp only [span_node, List.getLast?_singleton, Option.map_some,
        Option.getD_some]; omega⟩
    · exact ⟨by simp only [span_node]; omega, Int.le_refl _⟩
  · rw [children_node, children_node, List.pairwise_append]
    refine ⟨hp.1.apart, List.pairwise_singleton _ _, ?_⟩
    intro c hc d hd
    obtain rfl := List.mem_singleton.1 hd
    exact Int.le_trans (hp.1.within c hc).2 hle
  · intro c hc
    obtain hc | hc := List.mem_append.1 hc
    · exact hp.2 c hc
    · obtain rfl := List.mem_singleton.1 hc
      exact ht

theorem Covers.stop_le_start {all ts w v : List Token} {s : Surroundings}
    {p q : Parsed SyntaxTree} (hp : Covers all s ts w p) (hq : Covers all s p.rest v q) :
    p.value.span.stop.offset ≤ q.value.span.start.offset := by
  rw [hq.start]
  exact hp.stop_le

/-- Reading does not go back. -/
theorem Covers.here_le_rest {all ts w : List Token} {s : Surroundings} {p : Parsed SyntaxTree}
    (hp : Covers all s ts w p) (h : InOrder all s.ending.start) (hs : ts <:+ all) :
    (s.here ts).start.offset ≤ (s.here p.rest).start.offset := by
  have hsplit := hp.split
  rw [hsplit] at hs ⊢
  exact h.here_le_here hs

/-- A tree lies inside a span that starts no later and ends with it. -/
theorem Covers.within {all ts w : List Token} {s : Surroundings} {p : Parsed SyntaxTree}
    (hp : Covers all s ts w p) {start : Position}
    (hle : start.offset ≤ (s.here ts).start.offset) :
    p.value.span.Within ⟨start, p.value.span.stop⟩ := by
  refine ⟨?_, Int.le_refl _⟩
  rw [hp.start]
  exact hle

/-- A tree lies inside the common span with a tree behind it. -/
theorem Covers.within_front {all ts more w v : List Token} {s : Surroundings}
    {p q : Parsed SyntaxTree} (hp : Covers all s ts w p) (hq : Covers all s more v q)
    (hle : p.value.span.stop.offset ≤ q.value.span.start.offset) :
    p.value.span.Within ⟨(s.here ts).start, q.value.span.stop⟩ := by
  have hstart := congrArg Position.offset hp.start
  exact ⟨Int.le_of_eq hstart.symm, Int.le_trans hle hq.ordered⟩

section Parses
variable {all : List Token} {depth : Nat} {s : Surroundings} {part : Part} {ts : List Token}

/-- Wherever the parser is, the spans of what it has read nest. -/
theorem Parses.nested {p : Parsed SyntaxTree} (h : Parses depth s part ts p)
    (hall : InOrder all s.ending.start) (hs : ts <:+ all) : p.value.Nested := by
  induction h with
  | literal ht => exact nested_leaf
  | name ht ha => exact nested_leaf
  | invalid ht => exact nested_leaf
  | @lambda _ s t arrow ts p ht ha body ih =>
    have hmore := suffix_of_cons (suffix_of_cons hs)
    obtain ⟨v, hq⟩ := body.exists_covers hall hmore
    rw [hq.token_cover_eq (w := [arrow]) hall hs]
    exact nested_single (ih hall hmore) (hq.within (hall.here_le_here (w := [t, arrow]) hs))
  | @closed _ s b ts p t rest inside hr ht ih =>
    obtain ⟨w, hp⟩ := inside.exists_covers hall hs
    have hrest := hp.rest_suffix hs
    have hstop := hp.stop_le
    rw [hr] at hrest hstop
    have hwide := hall.wide t (hrest.subset List.mem_cons_self)
    change _ ≤ t.span.start.offset at hstop
    have hin := ih hall hs
    obtain ⟨⟨kind, text, span, children⟩, _, _⟩ := p
    exact hin.widen ⟨Int.le_refl _, by simp only [span_node] at hstop ⊢; omega⟩
  | @unclosed _ s b ts p inside hr ih =>
    have hin := ih hall hs
    obtain ⟨⟨kind, text, span, children⟩, _, _⟩ := p
    exact hin.widen ⟨Int.le_refl _, Int.le_refl _⟩
  | missing ho hsync => exact nested_leaf
  | unexpected ho hsync => exact nested_leaf
  | @group _ s t ts p ht body hsync ih =>
    have hmore := suffix_of_cons hs
    obtain ⟨w, hp⟩ := body.exists_covers hall hmore
    exact nested_single (ih hall hmore) (hp.within (hall.here_le_here (w := [t]) hs))
  | @leftover _ s t ts p q ht body hsync hq ih =>
    have hmore := suffix_of_cons hs
    obtain ⟨w, hp⟩ := body.exists_covers hall hmore
    obtain ⟨v, hq'⟩ := hq ▸ Surroundings.covers_recover hall (hp.rest_suffix hmore) _
    have hle := hp.stop_le_start hq'
    have hfront := hall.here_le_here (w := [t]) hs
    obtain ⟨hstart, hstop⟩ := hp.within_front hq' hle
    have hord := hp.ordered
    have hskipped : q.value.Nested := hq ▸ nested_leaf
    exact nested_pair (ih hall hmore) hskipped ⟨Int.le_trans hfront hstart, hstop⟩
      ⟨Int.le_trans hfront (Int.le_trans hstart (Int.le_trans hord hle)), Int.le_refl _⟩ hle
  | product ht => exact nested_leaf
  | @comma _ s ts p q t rest before he field hr ht ihb ihf =>
    obtain ⟨w, hp⟩ := before.exists_covers hall hs
    have hrest := hp.rest_suffix hs
    obtain ⟨v, hq⟩ := field.exists_covers hall hrest
    exact Parsed.nested_adding (ihb hall hs) (ihf hall hrest) (hp.stop_le_start hq) hp.ordered
      hq.ordered _ _
  | @skip _ s ts p q r before he field hc hsync hr ihb ihf =>
    obtain ⟨w, hp⟩ := before.exists_covers hall hs
    have hrest := hp.rest_suffix hs
    obtain ⟨v, hq⟩ := field.exists_covers hall hrest
    obtain ⟨u, hr'⟩ := hr ▸ Surroundings.covers_recover hall (hq.rest_suffix hrest) _
    have hskipped : r.value.Nested := hr ▸ nested_leaf
    have hle := hp.stop_le_start hq
    have hord := hp.ordered
    have hord' := hq.ordered
    have hone := Parsed.nested_adding (ihb hall hs) (ihf hall hrest) hle hord hord'
      q.diagnostics q.rest
    have htwo := Parsed.nested_adding hone hskipped (hq.stop_le_start hr')
      (Int.le_trans hord (Int.le_trans hle hord')) hr'.ordered r.diagnostics r.rest
    rw [Parsed.adding_adding] at htwo
    exact htwo
  | @lastField _ s ts p q before he field hc hsync ihb ihf =>
    obtain ⟨w, hp⟩ := before.exists_covers hall hs
    have hrest := hp.rest_suffix hs
    obtain ⟨v, hq⟩ := field.exists_covers hall hrest
    exact Parsed.nested_adding (ihb hall hs) (ihf hall hrest) (hp.stop_le_start hq) hp.ordered
      hq.ordered _ _
  | noField before he ih => exact ih hall hs
  | @field _ s before t colon ts p ht hc value ih =>
    have hmore := suffix_of_cons (suffix_of_cons hs)
    obtain ⟨v, hq⟩ := value.exists_covers hall hmore
    rw [hq.token_cover_eq (w := [colon]) hall hs]
    exact nested_single (ih hall hmore) (hq.within (hall.here_le_here (w := [t, colon]) hs))
  | notField hn =>
    unfold ExpressionParser.noField
    split <;> exact nested_leaf
  | function operand ih => exact ih hall hs
  | @call _ s ts p q function ho argument ihf iha =>
    obtain ⟨w, hp⟩ := function.exists_covers hall hs
    have hrest := hp.rest_suffix hs
    obtain ⟨v, hq⟩ := argument.exists_covers hall hrest
    have hle := hp.stop_le_start hq
    rw [hp.cover_eq hq (Int.le_refl _)]
    exact nested_pair (ihf hall hs) (iha hall hrest) (hp.within_front hq hle)
      (hq.within (hp.here_le_rest hall hs)) hle
  | application calls ho ih => exact ih hall hs
  | unary application hu ih => exact ih hall hs
  | @negate _ s t ts p ht operand ih =>
    have hmore := suffix_of_cons hs
    obtain ⟨v, hq⟩ := operand.exists_covers hall hmore
    rw [ExpressionParser.negate, hq.token_cover_eq (w := []) hall hs]
    exact nested_single (ih hall hmore) (hq.within (hall.here_le_here (w := [t]) hs))
  | first operand ih => exact ih hall hs
  | @operation _ s least ts p t rest operator q left hr ht hl right ihl ihr =>
    obtain ⟨w, hp⟩ := left.exists_covers hall hs
    have hrest := hp.rest_suffix hs
    have hstop := hp.stop_le
    rw [hr] at hrest hstop
    have hmore := suffix_of_cons hrest
    obtain ⟨v, hq⟩ := right.exists_covers hall hmore
    have hpass := hall.here_le_here (w := [t]) hrest
    have hle : p.value.span.stop.offset ≤ q.value.span.start.offset := by
      rw [hq.start]
      exact Int.le_trans hstop hpass
    rw [hp.cover_eq hq (by rw [hr]; exact hpass)]
    have hback := hp.here_le_rest hall hs
    rw [hr] at hback
    exact nested_pair (ihl hall hs) (ihr hall hmore) (hp.within_front hq hle)
      (hq.within (Int.le_trans hback hpass)) hle
  | expression operations hn ih => exact ih hall hs
  | tooDeep => exact nested_leaf
  | @binding _ s t mark ts p ht hm value ih =>
    have hmore := suffix_of_cons (suffix_of_cons hs)
    obtain ⟨v, hq⟩ := value.exists_covers hall hmore
    rw [hq.token_cover_eq (w := [mark]) hall hs]
    exact nested_single (ih hall hmore) (hq.within (hall.here_le_here (w := [t, mark]) hs))
  | bare hn value ih => exact ih hall hs

/-- Trees that stand one behind the other from a position on. -/
structure InRow (start : Position) (trees : List SyntaxTree) : Prop where
  nested : ∀ t ∈ trees, t.Nested
  le_start : ∀ t ∈ trees, start.offset ≤ t.span.start.offset
  apart : trees.Pairwise fun t u => t.span.stop.offset ≤ u.span.start.offset

theorem InRow.nil (start : Position) : InRow start [] := ⟨by simp, by simp, .nil⟩

theorem InRow.mono {start start' : Position} {trees : List SyntaxTree} (h : InRow start' trees)
    (hle : start.offset ≤ start'.offset) : InRow start trees :=
  ⟨h.nested, fun t ht => Int.le_trans hle (h.le_start t ht), h.apart⟩

/-- A tree in front of those behind it. -/
theorem Covers.inRow {w : List Token} {p : Parsed SyntaxTree} {trees : List SyntaxTree}
    (hp : Covers all s ts w p) (hn : p.value.Nested) (h : InRow (s.here p.rest).start trees) :
    InRow (s.here ts).start (p.value :: trees) where
  nested := List.forall_mem_cons.2 ⟨hn, h.nested⟩
  le_start := by
    have hord := hp.ordered
    have hstop := hp.stop_le
    rw [List.forall_mem_cons, ← hp.start]
    exact ⟨Int.le_refl _, fun t ht => Int.le_trans hord (Int.le_trans hstop (h.le_start t ht))⟩
  apart := List.pairwise_cons.2 ⟨fun t ht => Int.le_trans hp.stop_le (h.le_start t ht), h.apart⟩

/-- Statements stand one behind the other. -/
theorem ParsesStatements.inRow {p : Parsed (List SyntaxTree)} (h : ParsesStatements depth s ts p)
    (hall : InOrder all s.ending.start) (hs : ts <:+ all) : InRow (s.here ts).start p.value := by
  induction h with
  | nil => exact .nil _
  | @semicolon t ts p ht more ih =>
    exact (ih (suffix_of_cons hs)).mono (hall.here_le_here (w := [t]) hs)
  | last ht one hr =>
    obtain ⟨w, hp⟩ := one.exists_covers hall hs
    exact hp.inRow (one.nested hall hs) (.nil _)
  | @next t ts p m rest q ht one hr hm more ih =>
    obtain ⟨w, hp⟩ := one.exists_covers hall hs
    have hrest := hr ▸ hp.rest_suffix hs
    have hmore := (ih (suffix_of_cons hrest)).mono (hall.here_le_here (w := [m]) hrest)
    exact hp.inRow (one.nested hall hs) (hr ▸ hmore)
  | @skip t ts p u rest r q ht one hr hu hskip more ih =>
    obtain ⟨w, hp⟩ := one.exists_covers hall hs
    have hrest := hr ▸ hp.rest_suffix hs
    obtain ⟨v, hv⟩ := hskip ▸ Surroundings.covers_recover hall hrest _
    have hskipped : r.value.Nested := hskip ▸ nested_leaf
    have hmore := hv.inRow hskipped (ih (hv.rest_suffix hrest))
    exact hp.inRow (one.nested hall hs) (hr ▸ hmore)

end Parses

namespace Program

/-- The spans of the tree of a source nest: each child lies inside its parent and ends where the
next one starts or in front of it; the tree spans the whole source. -/
theorem nested_parse (config : Config) (source : Text) :
    let tree := (parse config (source.tokenStream config).tokens).tree
    tree.Nested ∧ tree.span.start.offset = 0 ∧ tree.span.stop.offset = source.length := by
  intro tree
  have hground := grounded_significant config source
  have hrow := (parses_statements config.maxDepth config.maxDepth
    (ending (source.tokenStream config).tokens)
    (significant (source.tokenStream config).tokens)).inRow hground.order (List.suffix_refl _)
  have hcoherent := (coherent_parse config source).1
  have hstop : tree.span.stop.offset = source.length := by
    change (ending (source.tokenStream config).tokens).stop.offset = _
    rw [ending_tokenStream]
    simp [Span.point, Position.origin]
  refine ⟨nested_node.2 ⟨⟨?_, hrow.apart⟩, hrow.nested⟩, rfl, hstop⟩
  intro c hc
  have hspan := (hcoherent.children c hc).span
  exact ⟨hspan.start.offset_nonneg, hstop ▸ hspan.stop.offset_le⟩

end Program

end LenSyntax

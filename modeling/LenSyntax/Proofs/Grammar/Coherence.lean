import LenSyntax.Proofs.Grammar.Coverage
import LenSyntax.Proofs.Token.Coherence
import LenSyntax.Proofs.Tree.Nodes
import LenSyntax.Report.Basic

/-! Positions of nodes and diagnostics agree with the source. The parser takes its positions from
tokens; what it puts together from several of them still runs from the left to the right. -/
namespace LenSyntax

open SyntaxTree

/-- The spans of all nodes of a tree agree with a source. -/
def SyntaxTree.Coherent (source : Text) (t : SyntaxTree) : Prop :=
  ∀ n ∈ t.nodes, n.span.Coherent source

/-- All that has been built and reported agrees with a source. -/
structure Parsed.Coherent (source : Text) (p : Parsed SyntaxTree) : Prop where
  tree : p.value.Coherent source
  diagnostics : ∀ d ∈ p.diagnostics, d.span.Coherent source

/-- The tokens `all`, the last of which are still to be read, stand in order in a source. -/
structure Surroundings.Grounded (source : Text) (all : List Token) (s : Surroundings) : Prop where
  order : InOrder all s.ending.start
  tokens : ∀ t ∈ all, t.span.Coherent source
  ending : s.ending.Coherent source

namespace SyntaxTree
variable {source : Text}

theorem coherent_node {kind : NodeKind} {text : Text} {span : Span} {children : List SyntaxTree} :
    (node kind text span children).Coherent source ↔
      span.Coherent source ∧ ∀ c ∈ children, c.Coherent source :=
  forall_mem_nodes kind text span children

theorem coherent_leaf {kind : NodeKind} {text : Text} {span : Span} (h : span.Coherent source) :
    (node kind text span []).Coherent source :=
  coherent_node.2 ⟨h, by simp⟩

theorem Coherent.span {t : SyntaxTree} (h : t.Coherent source) : t.span.Coherent source := by
  obtain ⟨kind, text, span, children⟩ := t
  exact (coherent_node.1 h).1

theorem Coherent.children {t : SyntaxTree} (h : t.Coherent source) :
    ∀ c ∈ t.children, c.Coherent source := by
  obtain ⟨kind, text, span, children⟩ := t
  exact (coherent_node.1 h).2

end SyntaxTree

namespace Surroundings.Grounded
variable {source : Text} {all ts : List Token} {s : Surroundings}

theorem within (h : s.Grounded source all) (closers : List TokenKind) :
    (s.within closers).Grounded source all := ⟨h.order, h.tokens, h.ending⟩

theorem here (h : s.Grounded source all) (hs : ts <:+ all) : (s.here ts).Coherent source := by
  cases ts with
  | nil => exact h.ending
  | cons t ts => exact h.tokens t (hs.subset List.mem_cons_self)

theorem missing (h : s.Grounded source all) (hs : ts <:+ all) (fault : SyntaxFault) :
    (s.missing fault ts).Coherent source where
  tree := coherent_leaf (Span.coherent_point (h.here hs).start)
  diagnostics d hd := by
    rw [List.mem_singleton.1 hd]
    exact h.here hs

theorem recover (h : s.Grounded source all) (hs : ts <:+ all) (fault : SyntaxFault) :
    (s.recover fault ts).Coherent source where
  tree := by
    obtain ⟨_, hcovers⟩ := Surroundings.covers_recover h.order hs fault
    obtain ⟨w, hw, hstop⟩ := s.exists_skip 0 (s.here ts).start ts
    refine coherent_leaf ⟨(h.here hs).start, ?_, hcovers.ordered⟩
    rw [hstop]
    cases hlast : w.getLast? with
    | none => exact (h.here hs).start
    | some last =>
      have hmem : last ∈ ts := hw ▸ List.mem_append_left _ (List.mem_of_getLast? hlast)
      exact (h.tokens last (hs.subset hmem)).stop
  diagnostics d hd := by
    rw [List.mem_singleton.1 hd]
    exact h.here hs

theorem noField (h : s.Grounded source all) (hs : ts <:+ all) :
    (ExpressionParser.noField s ts).Coherent source := by
  unfold ExpressionParser.noField
  split
  · exact h.missing hs _
  · exact h.recover hs _

end Surroundings.Grounded

namespace Parsed.Coherent
variable {source : Text} {p q : Parsed SyntaxTree} {rest : List Token}

/-- A node around one tree. -/
theorem node {kind : NodeKind} {text : Text} {span : Span} (hp : p.Coherent source)
    (hspan : span.Coherent source) :
    (⟨.node kind text span [p.value], p.diagnostics, rest⟩ :
      Parsed SyntaxTree).Coherent source where
  tree := coherent_node.2 ⟨hspan, by simpa using hp.tree⟩
  diagnostics := hp.diagnostics

/-- A node around two trees. -/
theorem node_pair {kind : NodeKind} {text : Text} {span : Span} (hp : p.Coherent source)
    (hq : q.Coherent source) (hspan : span.Coherent source) :
    (⟨.node kind text span [p.value, q.value], p.diagnostics ++ q.diagnostics, rest⟩ :
      Parsed SyntaxTree).Coherent source where
  tree := coherent_node.2 ⟨hspan, by simpa using ⟨hp.tree, hq.tree⟩⟩
  diagnostics := by simpa [or_imp, forall_and] using ⟨hp.diagnostics, hq.diagnostics⟩

theorem adding {more : Parsed (List SyntaxTree)} (hp : p.Coherent source)
    (ht : ∀ t ∈ more.value, t.Coherent source)
    (hd : ∀ d ∈ more.diagnostics, d.span.Coherent source)
    (ho : (p.adding more).value.span.start.offset ≤ (p.adding more).value.span.stop.offset) :
    (p.adding more).Coherent source where
  tree := by
    refine coherent_node.2 ⟨⟨hp.tree.span.start, ?_, ho⟩, ?_⟩
    · simp only
      cases hlast : more.value.getLast? with
      | none => exact hp.tree.span.stop
      | some last => exact (ht last (List.mem_of_getLast? hlast)).span.stop
    · simpa [or_imp, forall_and] using ⟨hp.tree.children, ht⟩
  diagnostics := by simpa [Parsed.adding, or_imp, forall_and] using ⟨hp.diagnostics, hd⟩

end Parsed.Coherent

section Parses
variable {source : Text} {all : List Token} {depth : Nat} {s : Surroundings} {part : Part}
  {ts : List Token} {p : Parsed SyntaxTree}

theorem Parses.exists_covers (h : Parses depth s part ts p) (hall : InOrder all s.ending.start)
    (hs : ts <:+ all) : ∃ w, Covers all s ts w p := by
  have hcovers := h.covers hall hs
  cases part with
  | fields => exact hcovers.1
  | inside b => exact hcovers.1
  | _ => exact hcovers

theorem Parses.ordered (h : Parses depth s part ts p) (hall : InOrder all s.ending.start)
    (hs : ts <:+ all) : p.value.span.start.offset ≤ p.value.span.stop.offset := by
  obtain ⟨w, hcovers⟩ := h.exists_covers hall hs
  exact hcovers.ordered

theorem Parses.rest_suffix (h : Parses depth s part ts p) (hall : InOrder all s.ending.start)
    (hs : ts <:+ all) : p.rest <:+ all := by
  obtain ⟨w, hcovers⟩ := h.exists_covers hall hs
  exact hcovers.rest_suffix hs

/-- What the parser reads from tokens of a source agrees with the source. -/
theorem Parses.coherent (h : Parses depth s part ts p) (hground : s.Grounded source all)
    (hs : ts <:+ all) : p.Coherent source := by
  induction h with
  | literal ht => exact ⟨coherent_leaf (hground.here hs), by simp⟩
  | name ht ha => exact ⟨coherent_leaf (hground.here hs), by simp⟩
  | invalid ht => exact ⟨coherent_leaf (hground.here hs), by simp⟩
  | lambda ht ha body ih =>
    have hp := ih hground (suffix_of_cons (suffix_of_cons hs))
    exact hp.node ((hground.here hs).cover hp.tree.span)
  | @closed _ s b ts p t rest inside hr ht ih =>
    -- the two ends of a bracket come from different tokens; that they are in order is known from
    -- what the bracket covers
    have hp := ih (hground.within _) hs
    have hrest := inside.rest_suffix hground.order hs
    have hord := (Parses.closed inside hr ht).ordered hground.order hs
    refine ⟨coherent_node.2 ⟨⟨hp.tree.span.start, ?_, hord⟩, hp.tree.children⟩, hp.diagnostics⟩
    exact (hground.tokens t (hrest.subset (by simp [hr]))).stop
  | unclosed inside hr ih =>
    have hp := ih (hground.within _) hs
    have hhere := hground.here (inside.rest_suffix hground.order hs)
    refine ⟨coherent_node.2 ⟨hp.tree.span, hp.tree.children⟩, ?_⟩
    simpa [or_imp, forall_and] using ⟨hp.diagnostics, hhere⟩
  | missing ho hsync => exact hground.missing hs _
  | unexpected ho hsync => exact hground.recover hs _
  | group ht body hsync ih =>
    have hp := ih hground (suffix_of_cons hs)
    have hord := (Parses.group ht body hsync).ordered hground.order hs
    exact hp.node ⟨(hground.here hs).start, hp.tree.span.stop, hord⟩
  | @leftover _ s t ts p q ht body hsync hq ih =>
    have hmore := suffix_of_cons hs
    have hp := ih hground hmore
    have hskip : q.Coherent source :=
      hq ▸ hground.recover (body.rest_suffix hground.order hmore) _
    have hord := (Parses.leftover ht body hsync hq).ordered hground.order hs
    exact hp.node_pair hskip ⟨(hground.here hs).start, hskip.tree.span.stop, hord⟩
  | product ht => exact ⟨coherent_leaf (hground.here hs), by simp⟩
  | comma before he field hr ht ihb ihf =>
    have hp := ihb hground hs
    have hq := ihf hground (before.rest_suffix hground.order hs)
    exact hp.adding (by simpa using hq.tree) hq.diagnostics
      ((Parses.comma before he field hr ht).ordered hground.order hs)
  | @skip _ s ts p q r before he field hc hsync hr ihb ihf =>
    have hp := ihb hground hs
    have hrest := before.rest_suffix hground.order hs
    have hq := ihf hground hrest
    have hskip : r.Coherent source :=
      hr ▸ hground.recover (field.rest_suffix hground.order hrest) _
    exact hp.adding (by simpa using ⟨hq.tree, hskip.tree⟩)
      (by simpa [or_imp, forall_and] using ⟨hq.diagnostics, hskip.diagnostics⟩)
      ((Parses.skip before he field hc hsync hr).ordered hground.order hs)
  | lastField before he field hc hsync ihb ihf =>
    have hp := ihb hground hs
    have hq := ihf hground (before.rest_suffix hground.order hs)
    exact hp.adding (by simpa using hq.tree) hq.diagnostics
      ((Parses.lastField before he field hc hsync).ordered hground.order hs)
  | noField before he ih => exact ih hground hs
  | field ht hc value ih =>
    have hp := ih hground (suffix_of_cons (suffix_of_cons hs))
    have hname := hground.here hs
    refine ⟨coherent_node.2 ⟨hname.cover hp.tree.span, by simpa using hp.tree⟩, ?_⟩
    intro d hd
    obtain hd | hd := List.mem_append.1 hd
    · exact hp.diagnostics d hd
    · split at hd
      · rw [List.mem_singleton.1 hd]
        exact hname
      · cases hd
  | notField hn => exact hground.noField hs
  | function operand ih => exact ih hground hs
  | call function ho argument ihf iha =>
    have hp := ihf hground hs
    have hq := iha hground (function.rest_suffix hground.order hs)
    exact hp.node_pair hq (hp.tree.span.cover hq.tree.span)
  | application calls ho ih => exact ih hground hs
  | unary application hu ih => exact ih hground hs
  | negate ht operand ih =>
    have hp := ih hground (suffix_of_cons hs)
    exact hp.node ((hground.here hs).cover hp.tree.span)
  | first operand ih => exact ih hground hs
  | operation left hr ht hl right ihl ihr =>
    have hp := ihl hground hs
    have hrest := left.rest_suffix hground.order hs
    have hq := ihr hground (suffix_of_cons (hr ▸ hrest))
    exact hp.node_pair hq (hp.tree.span.cover hq.tree.span)
  | expression operations hn ih => exact ih hground hs
  | tooDeep => exact hground.recover hs _
  | binding ht hm value ih =>
    have hp := ih hground (suffix_of_cons (suffix_of_cons hs))
    exact hp.node ((hground.here hs).cover hp.tree.span)
  | bare hn value ih => exact ih hground hs

theorem ParsesStatements.coherent {p : Parsed (List SyntaxTree)} (h : ParsesStatements depth s ts p)
    (hground : s.Grounded source all) (hs : ts <:+ all) :
    (∀ t ∈ p.value, t.Coherent source) ∧ ∀ d ∈ p.diagnostics, d.span.Coherent source := by
  induction h with
  | nil => simp
  | semicolon ht more ih => exact ih (suffix_of_cons hs)
  | last ht one hr =>
    have hp := one.coherent hground hs
    exact ⟨by simpa using hp.tree, hp.diagnostics⟩
  | next ht one hr hm more ih =>
    have hp := one.coherent hground hs
    have hrest := one.rest_suffix hground.order hs
    have hq := ih (suffix_of_cons (hr ▸ hrest))
    constructor
    · simpa using ⟨hp.tree, hq.1⟩
    · simpa [or_imp, forall_and] using ⟨hp.diagnostics, hq.2⟩
  | @skip t ts p u rest r q ht one hr hu hskip more ih =>
    have hp := one.coherent hground hs
    have hrest := one.rest_suffix hground.order hs
    rw [hr] at hrest
    have hskipped : r.Coherent source := hskip ▸ hground.recover hrest _
    have hq := ih ((hskip ▸ s.recover_suffix _ _).trans hrest)
    constructor
    · simpa using ⟨hp.tree, hskipped.tree, hq.1⟩
    · simpa [or_imp, forall_and] using ⟨hp.diagnostics, hskipped.diagnostics, hq.2⟩

end Parses

namespace Program
variable (config : Config) (source : Text)

theorem grounded_significant :
    Surroundings.Grounded source (significant (source.tokenStream config).tokens)
      ⟨config.maxDepth, ending (source.tokenStream config).tokens, []⟩ where
  order := by
    rw [ending_tokenStream]
    exact significant_inOrder config source
  tokens t ht := by
    rw [significant_eq_filter] at ht
    exact Text.coherent_of_mem_tokens (List.mem_filter.1 ht).1
  ending := by
    rw [ending_tokenStream, ← Position.behind_eq_after]
    exact Span.coherent_point (Position.coherent_behind source)

theorem coherent_parse :
    (parse config (source.tokenStream config).tokens).tree.Coherent source ∧
      ∀ d ∈ (parse config (source.tokenStream config).tokens).diagnostics,
        d.span.Coherent source := by
  have hground := grounded_significant config source
  obtain ⟨htrees, hdiagnostics⟩ := (parses_statements config.maxDepth config.maxDepth
    (ending (source.tokenStream config).tokens)
    (significant (source.tokenStream config).tokens)).coherent hground (List.suffix_refl _)
  refine ⟨coherent_node.2 ⟨⟨?_, hground.ending.stop, ?_⟩, htrees⟩, hdiagnostics⟩
  · exact Position.coherent_after [] source
  · exact hground.ending.stop.offset_nonneg

end Program

namespace Report

/-- The position of a failure is that of the whole source. -/
theorem coherent_internalError (source message : Text) :
    (internalError source message).span.Coherent source where
  start := Position.coherent_after [] source
  stop := Position.coherent_behind source
  ordered := (Position.coherent_behind source).offset_nonneg

/-- If a stage fails, its report holds the failure and else only what is found without one. -/
theorem mem_diagnostics_failing (config : Config) (source : Text) (stage : Stage) (message : Text) :
    let stream := source.tokenStream config
    let report := ofStages (.failing stage message) config source
    internalError source message ∈ report.diagnostics ∧
      ∀ d ∈ report.diagnostics, d = internalError source message ∨
        d ∈ stream.diagnostics ++ (Program.parse config stream.tokens).diagnostics := by
  cases stage <;> simp [ofStages, Stages.failing, Stages.standard, Diagnostics.sorted] <;> grind

/-- All positions agree with the source: those of tokens, of diagnostics, of nodes and of a failure,
which ends where the input does. -/
theorem coherent_spans (config : Config) (source : Text) :
    let stream := source.tokenStream config
    let program := Program.parse config stream.tokens
    (∀ t ∈ stream.tokens, t.span.Coherent source) ∧
      (∀ d ∈ stream.diagnostics ++ program.diagnostics, d.span.Coherent source) ∧
      (∀ n ∈ program.tree.arena.nodes, n.span.Coherent source) ∧
      ∀ stage message,
        let report := ofStages (.failing stage message) config source
        internalError source message ∈ report.diagnostics ∧
          (∀ d ∈ report.diagnostics, d.span.Coherent source) ∧
          stream.tokens.getLast? = some (.endAt (internalError source message).span.stop) := by
  intro stream program
  obtain ⟨htree, hparser⟩ := Program.coherent_parse config source
  have hfound : ∀ d ∈ stream.diagnostics ++ program.diagnostics, d.span.Coherent source := by
    intro d hd
    obtain hd | hd := List.mem_append.1 hd
    · exact Text.coherent_of_mem_diagnostics hd
    · exact hparser d hd
  refine ⟨fun t ht => Text.coherent_of_mem_tokens ht, hfound, forall_span_arena htree, ?_⟩
  intro stage message report
  obtain ⟨hfailure, hreport⟩ := mem_diagnostics_failing config source stage message
  refine ⟨hfailure, ?_, ?_⟩
  · intro d hd
    obtain rfl | hd := hreport d hd
    · exact coherent_internalError source message
    · exact hfound d hd
  · change _ = some (Token.endAt (Position.behind source))
    rw [Text.tokenStream_tokens, List.getLast?_concat, Position.behind_eq_after]

end Report

end LenSyntax

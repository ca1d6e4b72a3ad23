import LenSyntax.Proofs.Grammar.Acceptance
import LenSyntax.Proofs.Grammar.Consumption

/-! The depth limit breaks nothing else. What is nested too deeply is skipped up to where it ends and
leaves a node and a report of its own; all around it is parsed as if it could be read. -/
namespace LenSyntax

open SyntaxTree (kind_node text_node span_node children_node nodes nodesAll nodesAll_eq_flatMap)

/-- Where a tree has nodes for what is nested too deeply. -/
def SyntaxTree.deepPlaces (limit : Nat) (t : SyntaxTree) : List Position :=
  (t.nodes.filter fun n => n.kind = .error && n.text = (SyntaxFault.tooDeep limit).message).map
    (·.span.start)

/-- Where it is reported as an error that something is nested too deeply. -/
def Diagnostics.deepPlaces (limit : Nat) (ds : List Diagnostic) : List Position :=
  (ds.filter fun d => d.severity = .error && d.message = (SyntaxFault.tooDeep limit).message).map
    (·.span.start)

section Places
variable (limit : Nat)

/-- Only error nodes tell of something too deep. -/
theorem SyntaxTree.deepPlaces_node {kind : NodeKind} (hk : kind ≠ .error) (text : Text)
    (span : Span) (children : List SyntaxTree) :
    (node kind text span children).deepPlaces limit = children.flatMap (deepPlaces limit) := by
  simp only [deepPlaces, nodes, nodesAll_eq_flatMap, kind_node, hk, decide_false, Bool.false_and,
    List.filter_cons, Bool.false_eq_true, if_false, List.filter_flatMap, List.map_flatMap]
  rfl

/-- A node for one error is all that there is in it. -/
theorem SyntaxTree.deepPlaces_error (text : Text) (span : Span) :
    (node .error text span []).deepPlaces limit =
      if text = (SyntaxFault.tooDeep limit).message then [span.start] else [] := by
  by_cases h : text = (SyntaxFault.tooDeep limit).message <;> simp [deepPlaces, nodes, nodesAll, h]

namespace Diagnostics

@[simp] theorem deepPlaces_nil : deepPlaces limit [] = [] := rfl

@[simp] theorem deepPlaces_append (ds es : List Diagnostic) :
    deepPlaces limit (ds ++ es) = deepPlaces limit ds ++ deepPlaces limit es := by
  simp [deepPlaces]

theorem deepPlaces_error (message : Text) (span : Span) :
    deepPlaces limit [.error message span] =
      if message = (SyntaxFault.tooDeep limit).message then [span.start] else [] := by
  by_cases h : message = (SyntaxFault.tooDeep limit).message <;>
    simp [deepPlaces, Diagnostic.error, h]

@[simp] theorem deepPlaces_warning (message : Text) (span : Span) :
    deepPlaces limit [.warning message span] = [] := by
  simp [deepPlaces, Diagnostic.warning]

end Diagnostics

/-- If no other error is reported, these are all errors. -/
theorem OnlyTooDeep.deepPlaces_eq {limit : Nat} {ds : List Diagnostic} (h : OnlyTooDeep limit ds) :
    Diagnostics.deepPlaces limit ds = (ds.filter (·.severity = .error)).map (·.span.start) := by
  rw [Diagnostics.deepPlaces]
  refine congrArg (List.map _) (List.filter_congr fun d hd => ?_)
  by_cases hsev : d.severity = .error
  · simp [hsev, h d hd hsev]
  · simp [hsev]

end Places

section Parses
variable {depth : Nat} {s : Surroundings} {part : Part} {ts : List Token}

/-- What is read of a bracket up to its closer is a bracket. -/
theorem Parses.inside_value {b : Bracket} {p : Parsed SyntaxTree}
    (h : Parses depth s (.inside b) ts p) :
    p.value = .node b.node [] p.value.span p.value.children := by
  cases h with
  | group | leftover | lastField => rfl
  | noField before => exact before.fields_value rfl

/-- Closed or not, a bracket holds what has been read inside. -/
theorem Parses.deepPlaces_bracket {b : Bracket} {p : Parsed SyntaxTree}
    (h : Parses depth s (.inside b) ts p) (limit : Nat) (span : Span) :
    (SyntaxTree.node b.node [] span p.value.children).deepPlaces limit =
      p.value.deepPlaces limit := by
  rw [h.inside_value]
  simp only [SyntaxTree.deepPlaces_node limit b.node_ne_error, children_node]

theorem Parses.deepPlaces_adding {p : Parsed SyntaxTree} (h : Parses depth s .fields ts p)
    (limit : Nat) (more : Parsed (List SyntaxTree)) :
    (p.adding more).value.deepPlaces limit =
      p.value.deepPlaces limit ++ more.value.flatMap (SyntaxTree.deepPlaces limit) := by
  have hv : p.value.deepPlaces limit = p.value.children.flatMap (SyntaxTree.deepPlaces limit) := by
    rw [h.fields_value rfl]
    exact SyntaxTree.deepPlaces_node limit (by decide) _ _ _
  rw [hv, Parsed.adding, SyntaxTree.deepPlaces_node limit (by decide), List.flatMap_append]

theorem Surroundings.deepPlaces_missing (limit : Nat) (fault : SyntaxFault) (ts : List Token) :
    (s.missing fault ts).value.deepPlaces limit =
      Diagnostics.deepPlaces limit (s.missing fault ts).diagnostics := by
  rw [missing, SyntaxTree.deepPlaces_error, Diagnostics.deepPlaces_error]
  rfl

theorem Surroundings.deepPlaces_recover (limit : Nat) (fault : SyntaxFault) (ts : List Token) :
    (s.recover fault ts).value.deepPlaces limit =
      Diagnostics.deepPlaces limit (s.recover fault ts).diagnostics := by
  rw [recover, SyntaxTree.deepPlaces_error, Diagnostics.deepPlaces_error]

/-- Wherever the parser is, it has reported that something is nested too deeply exactly where it has
left a node for it. -/
theorem Parses.deepPlaces {p : Parsed SyntaxTree} (h : Parses depth s part ts p) :
    p.value.deepPlaces s.limit = Diagnostics.deepPlaces s.limit p.diagnostics := by
  induction h with
  | literal ht => simp [SyntaxTree.deepPlaces_node _ (TokenKind.ne_error_of_literal? ht)]
  | name => simp (disch := decide) [SyntaxTree.deepPlaces_node]
  | invalid =>
    rw [SyntaxTree.deepPlaces_error, if_neg (SyntaxFault.message_ne_tooDeep (by simp) _)]
    rfl
  | lambda ht ha body ih => simpa (disch := decide) [SyntaxTree.deepPlaces_node] using ih
  | closed inside hr ht ih =>
    rw [inside.deepPlaces_bracket]
    exact ih
  | @unclosed _ s b ts p inside hr ih =>
    have hother : (b.unclosed p.value.span.start).message ≠
        (SyntaxFault.tooDeep s.limit).message :=
      SyntaxFault.message_ne_tooDeep (by cases b <;> simp) s.limit
    rw [inside.deepPlaces_bracket, Diagnostics.deepPlaces_append, Diagnostics.deepPlaces_error,
      if_neg hother, List.append_nil]
    exact ih
  | missing => exact Surroundings.deepPlaces_missing _ _ _
  | unexpected => exact Surroundings.deepPlaces_recover _ _ _
  | group ht body hsync ih => simpa (disch := decide) [SyntaxTree.deepPlaces_node] using ih
  | @leftover _ s t ts p q ht body hsync hq ih =>
    have hskip : q.value.deepPlaces s.limit = Diagnostics.deepPlaces s.limit q.diagnostics :=
      hq ▸ Surroundings.deepPlaces_recover _ _ _
    simp (disch := decide) [SyntaxTree.deepPlaces_node, ih, hskip]
  | product => simp (disch := decide) [SyntaxTree.deepPlaces_node]
  | comma before he field hr ht ihb ihf | lastField before he field hc hsync ihb ihf =>
    rw [before.deepPlaces_adding]
    simp [Parsed.adding, ihb, ihf]
  | @skip _ s ts p q r before he field hc hsync hr ihb ihf =>
    have hskip : r.value.deepPlaces s.limit = Diagnostics.deepPlaces s.limit r.diagnostics :=
      hr ▸ Surroundings.deepPlaces_recover _ _ _
    rw [before.deepPlaces_adding]
    simp [Parsed.adding, ihb, ihf, hskip]
  | noField before he ih => exact ih
  | field ht hc value ih =>
    rw [Diagnostics.deepPlaces_append]
    split <;> simpa (disch := decide) [SyntaxTree.deepPlaces_node] using ih
  | notField hn =>
    unfold ExpressionParser.noField
    split
    · exact Surroundings.deepPlaces_missing _ _ _
    · exact Surroundings.deepPlaces_recover _ _ _
  | function operand ih => exact ih
  | call function ho argument ihf iha =>
    simp (disch := decide) [SyntaxTree.deepPlaces_node, ihf, iha]
  | application calls ho ih => exact ih
  | unary application hu ih => exact ih
  | negate ht operand ih =>
    simpa (disch := decide) [ExpressionParser.negate, SyntaxTree.deepPlaces_node] using ih
  | first operand ih => exact ih
  | operation left hr ht hl right ihl ihr =>
    simp (disch := decide) [SyntaxTree.deepPlaces_node, ihl, ihr]
  | expression operations hn ih => exact ih
  | tooDeep => exact Surroundings.deepPlaces_recover _ _ _
  | binding ht hm value ih => simpa (disch := decide) [SyntaxTree.deepPlaces_node] using ih
  | bare hn value ih => exact ih

theorem ParsesStatements.deepPlaces {p : Parsed (List SyntaxTree)}
    (h : ParsesStatements depth s ts p) :
    p.value.flatMap (SyntaxTree.deepPlaces s.limit) =
      Diagnostics.deepPlaces s.limit p.diagnostics := by
  induction h with
  | nil => rfl
  | semicolon ht more ih => exact ih
  | last ht one hr => simp [one.deepPlaces]
  | next ht one hr hm more ih => simp [one.deepPlaces, ih]
  | @skip t ts p u rest r q ht one hr hu hskip more ih =>
    have hplaces : r.value.deepPlaces s.limit = Diagnostics.deepPlaces s.limit r.diagnostics :=
      hskip ▸ Surroundings.deepPlaces_recover _ _ _
    simp [one.deepPlaces, hplaces, ih]

end Parses

namespace Program

/-- Nothing is wrong with a program but that some of its expressions are nested too deeply; `tokens`
are the tokens that the parser sees of it. -/
structure Unbroken (limit : Nat) (tokens : List Token) (program : Program) : Prop where
  /-- There is no other error. -/
  message : ∀ d ∈ program.diagnostics, d.severity = .error →
    d.message = (SyntaxFault.tooDeep limit).message
  /-- Each error has its own node. -/
  places : (program.diagnostics.filter (·.severity = .error)).map (·.span.start) =
    program.tree.deepPlaces limit
  /-- Each bracket has its own closer. -/
  brackets : ∃ c : ConcreteTree, c.trees = [program.tree] ∧ c.tokens = tokens ∧
    ∀ n ∈ c.nodes, n.LaidOut False
  /-- Each statement has its own tree. -/
  statements : (∀ row ∈ statementRows tokens, Derives .statement row) ∧
    program.tree.children.length = (statementRows tokens).length

/-- Whatever the depth limit is, it breaks nothing else in a derivable program. -/
theorem unbroken_parse (config : Config) (tokens : List Token)
    (hd : Derives .program (significant tokens)) :
    (parse config tokens).Unbroken config.maxDepth (significant tokens) := by
  have h := parses_statements config.maxDepth config.maxDepth (ending tokens) (significant tokens)
  obtain ⟨hdeep, hlength⟩ := h.finishes (by simp [Surroundings.AwaitsClosers]) hd
  obtain ⟨parts, hparts⟩ := h.exists_listed False (List.suffix_refl _) fun _ => hdeep
  constructor
  · exact hdeep
  · have hplaces := h.deepPlaces
    rw [hdeep.deepPlaces_eq] at hplaces
    rw [parse, SyntaxTree.deepPlaces_node _ (by decide)]
    exact hplaces.symm
  · refine ⟨.node .program [] ⟨.origin, (ending tokens).stop⟩ parts, ?_, ?_, ?_⟩
    · rw [ConcreteTree.trees, hparts.trees]
      rfl
    · rw [ConcreteTree.tokens, hparts.tokens]
    · rw [ConcreteTree.nodes, List.forall_mem_cons]
      exact ⟨.program hparts.semicolon, fun n hn => (hparts.sound n hn).laidOut⟩
  · exact ⟨hd.of_mem_statementRows, hlength⟩

/-- A group and a product are read around the two expressions that are nested too deeply. -/
theorem unbroken_group_product :
    let config : Config := .make false 1
    let tokens := (Text.tokenStream config "a = (1); f \x7bb: (2)\x7d").tokens
    Derives .program (significant tokens) ∧
      ((parse config tokens).diagnostics.filter (·.severity = .error)).length = 2 ∧
        (parse config tokens).Unbroken config.maxDepth (significant tokens) := by
  intro config tokens
  have hd : Derives .program (significant tokens) :=
    (parses_statements 3 3 (ending tokens) (significant tokens)).derives (by decide +kernel)
  exact ⟨hd, by decide +kernel, unbroken_parse config tokens hd⟩

end Program

end LenSyntax

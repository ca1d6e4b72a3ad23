import Mathlib.Data.List.Forall2
import LenSyntax.Proofs.Grammar.Coverage
import LenSyntax.Proofs.Tree.Nodes
import LenSyntax.Report.Basic

/-! The diagnostics of the parser and its tree account for each other: what a tree complains about
is what the parser has reported, and in the same order. -/
namespace LenSyntax

open SyntaxTree ExpressionParser

/-- What can be told of a diagnostic from a tree; of an unclosed bracket the tree does not tell
where the closer was missed. -/
structure Complaint where
  severity : Severity
  message : Text
  start? : Option Position
  deriving DecidableEq

def Complaint.Describes (c : Complaint) (d : Diagnostic) : Prop :=
  d.severity = c.severity ∧ d.message = c.message ∧ ∀ p ∈ c.start?, d.span.start = p

namespace SyntaxTree
variable (all : List Token)

/-- Whether an error node stands for an error token. Such a token was reported when it was read. -/
def standsForToken (text : Text) (span : Span) : Bool :=
  all.any fun t =>
    t.kind = .error && t.span = span && text = (SyntaxFault.invalidToken t.raw).message

/-- What a node complains about, its children apart. -/
def ownComplaints (kind : NodeKind) (text : Text) (span : Span) (children : List SyntaxTree) :
    List Complaint :=
  if kind = .error then
    if standsForToken all text span then [] else [⟨.error, text, some span.start⟩]
  else
    match kind.bracket? with
    | some b =>
      if isClosed all b span children then []
      else [⟨.error, (b.unclosed span.start).message, none⟩]
    | none => []

/-- What a product complains about its child `t` behind those of `before`. -/
def doubled (before : List SyntaxTree) (t : SyntaxTree) : List Complaint :=
  if t.kind = .field ∧ hasField t.text before then
    [⟨.warning, (SyntaxFault.duplicateField t.text).message, some t.span.start⟩]
  else []

mutual

/-- What a tree complains about. -/
def complaints : SyntaxTree → List Complaint
  | node kind text span children =>
    childComplaints kind [] children ++ ownComplaints all kind text span children

/-- What the children of a node complain about, behind those given. -/
def childComplaints (kind : NodeKind) (before : List SyntaxTree) :
    List SyntaxTree → List Complaint
  | [] => []
  | t :: ts =>
    complaints t ++ (if kind = .product then doubled before t else []) ++
      childComplaints kind (before ++ [t]) ts

end

theorem childComplaints_append (kind : NodeKind) (before ts us : List SyntaxTree) :
    childComplaints all kind before (ts ++ us) =
      childComplaints all kind before ts ++ childComplaints all kind (before ++ ts) us := by
  induction ts generalizing before with
  | nil => simp [childComplaints]
  | cons t ts ih => simp [childComplaints, ih]

/-- Only the fields of a product depend on what stands in front of them. -/
theorem childComplaints_eq_flatMap {kind : NodeKind} (hk : kind ≠ .product)
    (before ts : List SyntaxTree) :
    childComplaints all kind before ts = ts.flatMap (complaints all) := by
  induction ts generalizing before with
  | nil => simp [childComplaints]
  | cons t ts ih => simp [childComplaints, hk, ih]

/-- Only errors and brackets complain about more than their children do. -/
theorem complaints_plain {kind : NodeKind} (he : kind ≠ .error) (hb : kind.bracket? = none)
    (text : Text) (span : Span) (children : List SyntaxTree) :
    (node kind text span children).complaints all = children.flatMap (complaints all) := by
  have hk : kind ≠ .product := by
    rintro rfl
    cases hb
  rw [complaints, childComplaints_eq_flatMap all hk, ownComplaints, if_neg he, hb, List.append_nil]

end SyntaxTree

/-- The complaints describe the diagnostics, one by one. -/
def Accounts (cs : List Complaint) (ds : List Diagnostic) : Prop :=
  List.Forall₂ Complaint.Describes cs ds

namespace Accounts
variable {cs cs' : List Complaint} {ds ds' : List Diagnostic}

theorem nil : Accounts [] [] := List.Forall₂.nil

theorem append (h : Accounts cs ds) (h' : Accounts cs' ds') :
    Accounts (cs ++ cs') (ds ++ ds') := List.rel_append h h'

/-- Where no error has been reported, there are only warnings. -/
theorem severity_eq_warning (h : Accounts cs ds) (hd : Diagnostics.hasErrors ds = false) :
    ∀ c ∈ cs, c.severity = .warning := by
  induction h with
  | nil => simp
  | @cons c d cs ds hc _ ih =>
    have hsplit : Diagnostics.hasErrors [d] = false ∧ Diagnostics.hasErrors ds = false := by
      rw [← List.singleton_append, Diagnostics.hasErrors_append, Bool.or_eq_false_iff] at hd
      exact hd
    intro c' hc'
    obtain rfl | hc' := List.mem_cons.1 hc'
    · have hsev : d.severity ≠ .error := by simpa [Diagnostics.hasErrors] using hsplit.1
      rw [hc.1] at hsev
      cases hs : c'.severity with
      | error => exact absurd hs hsev
      | warning => rfl
    · exact ih hsplit.2 c' hc'

end Accounts

/-- No other fault reads like an invalid token. -/
theorem SyntaxFault.message_ne_invalidToken {fault : SyntaxFault}
    (h : ∀ raw, fault ≠ .invalidToken raw) (raw : Text) :
    fault.message ≠ (invalidToken raw).message := by
  have hinvalid : (invalidToken raw).message.head? = some (CodePoint.ofChar 'i') := rfl
  intro he
  rw [← he] at hinvalid
  cases fault with
  | invalidToken raw => exact h raw rfl
  | missingExpression | missingFieldName | afterStatement | afterField | notFieldName | openGroup
  | openProduct | tooDeep | unexpected | duplicateField =>
    exact absurd (Option.some.inj hinvalid) (by decide)

section ErrorNodes
variable (all : List Token) (s : Surroundings) (fault : SyntaxFault)
  (h : ∀ raw, fault ≠ .invalidToken raw) (ts : List Token)
include h

/-- A node for a fault complains about it. -/
theorem complaints_error (span : Span) :
    (SyntaxTree.node .error fault.message span []).complaints all =
      [⟨.error, fault.message, some span.start⟩] := by
  have hstands : standsForToken all fault.message span = false := by
    simp only [standsForToken, List.any_eq_false, Bool.and_eq_true, decide_eq_true_eq, not_and]
    intro t _ _
    exact SyntaxFault.message_ne_invalidToken h t.raw
  simp [SyntaxTree.complaints, childComplaints, ownComplaints, hstands]

theorem accounts_missing :
    Accounts ((s.missing fault ts).value.complaints all) (s.missing fault ts).diagnostics := by
  rw [Surroundings.missing, complaints_error all fault h]
  exact .cons ⟨rfl, rfl, by simp [Diagnostic.error, Span.point]⟩ .nil

theorem accounts_recover :
    Accounts ((s.recover fault ts).value.complaints all) (s.recover fault ts).diagnostics := by
  rw [Surroundings.recover, complaints_error all fault h]
  exact .cons ⟨rfl, rfl, by simp [Diagnostic.error]⟩ .nil

end ErrorNodes

theorem accounts_noField (all : List Token) (s : Surroundings) (ts : List Token) :
    Accounts ((ExpressionParser.noField s ts).value.complaints all)
      (ExpressionParser.noField s ts).diagnostics := by
  unfold ExpressionParser.noField
  split
  · exact accounts_missing all s _ (by simp) ts
  · exact accounts_recover all s _ (by simp) ts

theorem noField_value_kind (s : Surroundings) (ts : List Token) :
    (ExpressionParser.noField s ts).value.kind = .error := by
  unfold ExpressionParser.noField
  split <;> rfl

/-- What accounts for the diagnostics of a part. What a product complains about a field comes with
the field. -/
def AccountsPart (all : List Token) (p : Parsed SyntaxTree) : Part → Prop
  | .fields => Accounts (childComplaints all .product [] p.value.children) p.diagnostics
  | .inside b => Accounts (childComplaints all b.node [] p.value.children) p.diagnostics
  | .field before => Accounts (p.value.complaints all ++ doubled before p.value) p.diagnostics
  | _ => Accounts (p.value.complaints all) p.diagnostics

/-- A product goes on with one more child. -/
theorem Accounts.adding {all : List Token} {p q : Parsed SyntaxTree} (rest : List Token)
    (hp : Accounts (childComplaints all .product [] p.value.children) p.diagnostics)
    (hq : Accounts (q.value.complaints all ++ doubled p.value.children q.value) q.diagnostics) :
    Accounts (childComplaints all .product []
        (p.adding ⟨[q.value], q.diagnostics, rest⟩).value.children)
      (p.adding ⟨[q.value], q.diagnostics, rest⟩).diagnostics := by
  rw [Parsed.adding_value_children, childComplaints_append]
  apply hp.append
  simpa [childComplaints] using hq

theorem doubled_eq_nil {before : List SyntaxTree} {t : SyntaxTree} (h : t.kind ≠ .field) :
    doubled before t = [] := by simp [doubled, h]

/-- A field is complained about if there is a field of its name in front of it. -/
theorem accounts_doubled (before : List SyntaxTree) {t : Token} {span : Span}
    (hspan : span.start = t.span.start) (children : List SyntaxTree) :
    Accounts (doubled before (node .field t.value span children))
      (if hasField t.value before then
        [.warning (SyntaxFault.duplicateField t.value).message t.span] else []) := by
  by_cases hb : hasField t.value before
  · simp only [doubled, kind_node, text_node, span_node, hb, hspan, and_self, if_true]
    exact .cons ⟨rfl, rfl, by simp [Diagnostic.warning]⟩ .nil
  · simpa [doubled, hb] using Accounts.nil

/-- The complaints of the tree account for what the parser reports. -/
theorem Parses.accounts {all : List Token} {depth : Nat} {s : Surroundings} {part : Part}
    {ts : List Token} {p : Parsed SyntaxTree} (h : Parses depth s part ts p)
    (hall : InOrder all s.ending.start) (hs : ts <:+ all) : AccountsPart all p part := by
  induction h with
  | @literal _ _ t _ kind ht =>
    cases hk : t.kind <;> rw [hk] at ht <;> cases ht <;> exact .nil
  | name => exact .nil
  | @invalid _ _ t ts ht =>
    have hstands : standsForToken all (SyntaxFault.invalidToken t.raw).message t.span = true := by
      simp only [standsForToken, List.any_eq_true]
      exact ⟨t, hs.subset List.mem_cons_self, by simp [ht]⟩
    simpa [AccountsPart, complaints, childComplaints, ownComplaints, hstands] using Accounts.nil
  | lambda ht ha body ih =>
    have hmore := suffix_of_cons (suffix_of_cons hs)
    simpa (disch := decide) [AccountsPart, complaints_plain] using ih hall hmore
  | @closed _ s b ts p t rest inside hr ht ih =>
    obtain ⟨⟨w, hp⟩, hopen⟩ := inside.covers hall hs
    have hrest := hp.rest_suffix hs
    have hstop := hp.stop_le
    rw [hr] at hrest hstop
    -- the closer ends behind the inside, so the tree shows that it is there
    have hclosed := hopen.isClosed_closer (hall.wide t (hrest.subset List.mem_cons_self)) hstop
    have hin := ih hall hs
    cases b <;>
      simpa [AccountsPart, complaints, ownComplaints, NodeKind.bracket?, hclosed] using hin
  | @unclosed _ s b ts p inside hr ih =>
    obtain ⟨-, hopen⟩ := inside.covers hall hs
    have hclosed := hopen.isClosed_eq_false
    have hone : Accounts [⟨.error, (b.unclosed p.value.span.start).message, none⟩]
        [.error (b.unclosed p.value.span.start).message (s.here p.rest)] :=
      .cons ⟨rfl, rfl, by simp⟩ .nil
    have hin := (ih hall hs).append hone
    cases b <;>
      simpa [AccountsPart, complaints, ownComplaints, NodeKind.bracket?, hclosed] using hin
  | missing => exact accounts_missing all _ _ (by simp) _
  | unexpected => exact accounts_recover all _ _ (by simp) _
  | group ht body hsync ih =>
    simpa [AccountsPart, childComplaints] using ih hall (suffix_of_cons hs)
  | @leftover _ s t ts p q ht body hsync hq ih =>
    have hone := ih hall (suffix_of_cons hs)
    have htwo := accounts_recover all s (.unexpected (.ofHead p.rest)) (by simp) p.rest
    rw [← hq] at htwo
    simpa [AccountsPart, childComplaints] using hone.append htwo
  | product => exact .nil
  | @comma _ s ts p q t rest before he field hr ht ihb ihf =>
    obtain ⟨⟨w, hp⟩, -⟩ := before.covers hall hs
    exact (ihb hall hs).adding _ (ihf hall (hp.rest_suffix hs))
  | @skip _ s ts p q r before he field hc hsync hr ihb ihf =>
    obtain ⟨⟨w, hp⟩, -⟩ := before.covers hall hs
    have hone := (ihb hall hs).adding q.rest (ihf hall (hp.rest_suffix hs))
    have herror := accounts_recover all s (.afterField (.ofHead q.rest)) (by simp) q.rest
    rw [← hr] at herror
    have hkind : r.value.kind ≠ .field := by simp [hr, Surroundings.recover]
    have htwo := hone.adding (q := r) r.rest
      (by rw [doubled_eq_nil hkind, List.append_nil]; exact herror)
    rw [Parsed.adding_adding] at htwo
    exact htwo
  | @lastField _ s ts p q before he field hc hsync ihb ihf =>
    obtain ⟨⟨w, hp⟩, -⟩ := before.covers hall hs
    exact (ihb hall hs).adding _ (ihf hall (hp.rest_suffix hs))
  | noField before he ih => exact ih hall hs
  | @field _ s before t colon ts p ht hc value ih =>
    have hmore := suffix_of_cons (suffix_of_cons hs)
    obtain ⟨w, hp⟩ := value.covers hall hmore
    have hcover := hp.token_cover_eq (w := [colon]) hall hs
    have hspan : (Span.cover t.span p.value.span).start = t.span.start := by rw [hcover]
    have hboth := (ih hall hmore).append (accounts_doubled before hspan [p.value])
    simpa (disch := decide) [AccountsPart, complaints_plain] using hboth
  | notField hn =>
    rw [AccountsPart, doubled_eq_nil (by rw [noField_value_kind]; decide), List.append_nil]
    exact accounts_noField all _ _
  | function operand ih => exact ih hall hs
  | @call _ s ts p q function ho argument ihf iha =>
    obtain ⟨w, hp⟩ := function.covers hall hs
    have hboth := (ihf hall hs).append (iha hall (hp.rest_suffix hs))
    simpa (disch := decide) [AccountsPart, complaints_plain] using hboth
  | application calls ho ih => exact ih hall hs
  | unary application hu ih => exact ih hall hs
  | negate ht operand ih =>
    simpa (disch := decide) [AccountsPart, ExpressionParser.negate, complaints_plain] using
      ih hall (suffix_of_cons hs)
  | first operand ih => exact ih hall hs
  | @operation _ s least ts p t rest operator q left hr ht hl right ihl ihr =>
    obtain ⟨w, hp⟩ := left.covers hall hs
    have hrest := hp.rest_suffix hs
    rw [hr] at hrest
    have hboth := (ihl hall hs).append (ihr hall (suffix_of_cons hrest))
    simpa (disch := decide) [AccountsPart, complaints_plain] using hboth
  | expression operations hn ih => exact ih hall hs
  | tooDeep => exact accounts_recover all _ _ (by simp) _
  | binding ht hm value ih =>
    have hmore := suffix_of_cons (suffix_of_cons hs)
    simpa (disch := decide) [AccountsPart, complaints_plain] using ih hall hmore
  | bare hn value ih => exact ih hall hs

namespace SyntaxTree

section Nodes
variable {all : List Token} {kind : NodeKind} {text : Text} {span : Span}
  {children : List SyntaxTree} {c : Complaint}

mutual

/-- What a node complains about, every tree around it complains about. -/
theorem mem_complaints (hc : c ∈ ownComplaints all kind text span children) :
    ∀ t : SyntaxTree, node kind text span children ∈ t.nodes → c ∈ t.complaints all
  | node kind' text' span' children', h => by
    rw [nodes, List.mem_cons] at h
    rw [complaints]
    obtain h | h := h
    · cases h
      exact List.mem_append_right _ hc
    · exact List.mem_append_left _ (mem_childComplaints hc kind' [] children' h)

theorem mem_childComplaints (hc : c ∈ ownComplaints all kind text span children)
    (outer : NodeKind) (before : List SyntaxTree) :
    ∀ ts : List SyntaxTree, node kind text span children ∈ nodesAll ts →
      c ∈ childComplaints all outer before ts
  | [], h => by simp [nodesAll] at h
  | t :: ts, h => by
    rw [nodesAll, List.mem_append] at h
    rw [childComplaints]
    obtain h | h := h
    · exact List.mem_append_left _ (List.mem_append_left _ (mem_complaints hc t h))
    · exact List.mem_append_right _ (mem_childComplaints hc outer (before ++ [t]) ts h)

end

end Nodes

/-- No node of a tree is an error, and every bracket is closed. -/
def Faultless (all : List Token) (t : SyntaxTree) : Prop :=
  ∀ n ∈ t.nodes, n.kind ≠ .error ∧
    ∀ b, n.kind.bracket? = some b → isClosed all b n.span n.children

/-- A tree that only warns has no errors, if there are no error tokens. -/
theorem faultless_of_warnings {all : List Token} {t : SyntaxTree}
    (h : ∀ c ∈ t.complaints all, c.severity = .warning) (hall : ∀ u ∈ all, u.kind ≠ .error) :
    t.Faultless all := by
  rintro ⟨kind, text, span, children⟩ hn
  have hown : ∀ c ∈ ownComplaints all kind text span children, c.severity = .warning :=
    fun c hc => h c (mem_complaints hc t hn)
  constructor
  · rintro rfl
    -- without error tokens an error node stands for none, so it complains
    have hstands : standsForToken all text span = false := by
      simp only [standsForToken, List.any_eq_false, Bool.and_eq_true, decide_eq_true_eq, not_and]
      intro u hu he
      exact absurd he.1 (hall u hu)
    simp [ownComplaints, hstands] at hown
  · intro b hb
    by_contra hopen
    cases kind <;> cases hb <;> simp_all [ownComplaints, NodeKind.bracket?]

end SyntaxTree

/-- The complaints of statements account for what the parser reports. -/
theorem ParsesStatements.accounts {all : List Token} {depth : Nat} {s : Surroundings}
    {ts : List Token} {p : Parsed (List SyntaxTree)} (h : ParsesStatements depth s ts p)
    (hall : InOrder all s.ending.start) (hs : ts <:+ all) :
    Accounts (p.value.flatMap (complaints all)) p.diagnostics := by
  induction h with
  | nil => exact .nil
  | semicolon ht more ih => exact ih (suffix_of_cons hs)
  | last ht one hr => simpa [AccountsPart] using one.accounts hall hs
  | next ht one hr hm more ih =>
    obtain ⟨w, hw⟩ := one.covers hall hs
    have hrest := hr ▸ hw.rest_suffix hs
    simpa using (one.accounts hall hs).append (ih (suffix_of_cons hrest))
  | @skip t ts p u rest r q ht one hr hu hskip more ih =>
    obtain ⟨w, hw⟩ := one.covers hall hs
    have hrest := hr ▸ hw.rest_suffix hs
    have hsuf : r.rest <:+ all := by
      rw [hskip]
      exact (Surroundings.recover_suffix _ _ _).trans hrest
    have herror := accounts_recover all s (.afterStatement (.token u.raw)) (by simp) (u :: rest)
    rw [← hskip] at herror
    simpa using ((one.accounts hall hs).append herror).append (ih hsuf)

namespace Program

/-- An error token has been reported. -/
theorem hasErrors_of_error_token {config : Config} {source : Text} {t : Token}
    (ht : t ∈ source.words config) (hk : t.kind = .error) :
    Diagnostics.hasErrors (source.tokenStream config).diagnostics = true := by
  obtain ⟨l, hl, hproper, -, htoken⟩ := Text.exists_lexeme ht
  obtain ⟨fault, hfault⟩ := (hproper.token?_kind htoken).2 hk
  simp only [Diagnostics.hasErrors, Text.tokenStream, List.any_flatMap, List.any_eq_true]
  refine ⟨l, hl, ?_⟩
  simp [Placed.diagnostics, hfault, Lexeme.diagnostics, Diagnostic.error]

theorem hasErrors_sorted (ds : List Diagnostic) :
    Diagnostics.hasErrors (Diagnostics.sorted ds) = Diagnostics.hasErrors ds := by
  rw [Bool.eq_iff_iff]
  simp [Diagnostics.hasErrors, Diagnostics.sorted]

/-- The complaints of the tree account for all that the parser reports of a source; and where a
report has no errors, neither has the tree. -/
theorem complaints_parse (config : Config) (source : Text) :
    let read := (source.tokenStream config).tokens.filter
      fun t => t.kind ≠ .comment && t.kind ≠ .endOfInput
    let program := parse config (source.tokenStream config).tokens
    List.Forall₂ Complaint.Describes (program.tree.complaints read) program.diagnostics ∧
      (Diagnostics.hasErrors (Report.of config source).diagnostics = false →
        program.tree.Faultless read) := by
  intro read program
  have hread : significant (source.tokenStream config).tokens = read :=
    significant_eq_filter config source
  have horder := significant_inOrder config source
  rw [hread] at horder
  have hstatements := (parses_statements config.maxDepth config.maxDepth
    (.point (Position.origin.after source)) read).accounts horder (List.suffix_refl _)
  have haccounts : Accounts (program.tree.complaints read) program.diagnostics := by
    rw [show program.tree.complaints read = _ from complaints_plain read (by decide) rfl _ _ _]
    simpa [program, parse, hread, ending_tokenStream] using hstatements
  refine ⟨haccounts, ?_⟩
  intro herrors
  rw [Report.of_diagnostics, Text.diagnostics, hasErrors_sorted, Diagnostics.hasErrors_append,
    Bool.or_eq_false_iff] at herrors
  apply faultless_of_warnings (haccounts.severity_eq_warning herrors.2)
  intro t ht hk
  have hmem : t ∈ source.words config := by
    rw [← hread, significant_tokenStream] at ht
    exact (List.mem_filter.1 ht).1
  rw [hasErrors_of_error_token hmem hk] at herrors
  exact absurd herrors.1 (by decide)

/-- A repeated field is only warned of. -/
theorem complaints_repeated_field :
    let config : Config := .make false 3
    let source : Text := "f (\x7b a: 1, a: 2 \x7d)"
    let read := (source.tokenStream config).tokens.filter
      fun t => t.kind ≠ .comment && t.kind ≠ .endOfInput
    let program := parse config (source.tokenStream config).tokens
    Diagnostics.hasErrors (Report.of config source).diagnostics = false ∧
      List.Forall₂ Complaint.Describes (program.tree.complaints read) program.diagnostics ∧
      program.tree.Faultless read := by
  intro config source read program
  have herrors : Diagnostics.hasErrors (Report.of config source).diagnostics = false := by
    decide +kernel
  obtain ⟨haccounts, hfaultless⟩ := complaints_parse config source
  exact ⟨herrors, haccounts, hfaultless herrors⟩

end Program

end LenSyntax

import LenSyntax.Proofs.Grammar.Locality
import LenSyntax.Proofs.Token.Separation
import LenSyntax.Proofs.Tree.Spans
import Mathlib.Data.List.Forall2

/-! Layout does not matter to the parser. From tokens that differ in nothing but their places it
makes trees that differ in nothing but theirs, and it reports the same; only the report of a missing
closer names a place, that of the bracket. -/
namespace LenSyntax

open SyntaxTree

/-- Tokens that are the same apart from their places. -/
def Token.Alike (t u : Token) : Prop := t.content = u.content

/-- Tokens in a row that are the same apart from their places. -/
abbrev Relaid (ts us : List Token) : Prop := List.Forall₂ Token.Alike ts us

/-- Diagnostics that say the same, except that both may tell of a bracket without a closer and where
it was opened. -/
def Diagnostic.Alike (d e : Diagnostic) : Prop :=
  d.severity = e.severity ∧ (d.message = e.message ∨
    ∃ (b : Bracket) (p q : Position),
      d.message = (b.unclosed p).message ∧ e.message = (b.unclosed q).message)

/-- What has been read from alike tokens. -/
structure Parsed.Alike (p q : Parsed SyntaxTree) : Prop where
  value : p.value.unplaced = q.value.unplaced
  diagnostics : List.Forall₂ Diagnostic.Alike p.diagnostics q.diagnostics
  rest : Relaid p.rest q.rest

/-- The same part of a product, the fields in front of which may stand elsewhere, or else the same
part. -/
def Part.Alike : Part → Part → Prop
  | .field before, .field before' => before.map unplaced = before'.map unplaced
  | part, part' => part = part'

theorem Diagnostic.alike_error {m n : Text} (h : m = n) (span span' : Span) :
    (error m span).Alike (error n span') := ⟨rfl, .inl h⟩

namespace Token.Alike
variable {t u : Token} (h : t.Alike u)
include h

theorem kind : t.kind = u.kind := congrArg Prod.fst h

theorem value : t.value = u.value := congrArg (·.2.1) h

theorem raw : t.raw = u.raw := congrArg (·.2.2) h

theorem binaryOperator? : t.binaryOperator? = u.binaryOperator? := by
  rw [Token.binaryOperator?, h.kind, h.value, Token.binaryOperator?]

theorem isUnaryOperator : t.isUnaryOperator = u.isUnaryOperator := by
  rw [Token.isUnaryOperator, h.kind, h.value, Token.isUnaryOperator]

end Token.Alike

theorem Part.Alike.exists_field {before : List SyntaxTree} {part : Part}
    (h : (Part.field before).Alike part) :
    ∃ before', part = .field before' ∧ before.map unplaced = before'.map unplaced := by
  cases part with
  | field before' => exact ⟨before', rfl, h⟩
  | _ => cases h

namespace Relaid

theorem exists_cons {t : Token} {ts us : List Token} (h : Relaid (t :: ts) us) :
    ∃ u vs, us = u :: vs ∧ t.Alike u ∧ Relaid ts vs := by
  cases h with
  | cons hu hvs => exact ⟨_, _, rfl, hu, hvs⟩

variable {ts us : List Token} (h : Relaid ts us)
include h

theorem headKind? : headKind? ts = headKind? us := by
  cases h with
  | nil => rfl
  | cons h hs => simp [h.kind]

theorem startsOperand : startsOperand ts = startsOperand us := by
  rw [LenSyntax.startsOperand, h.headKind?, LenSyntax.startsOperand]

theorem startsUnary : startsUnary ts = startsUnary us := by
  cases h with
  | nil => rfl
  | cons h hs => simp [LenSyntax.startsUnary, h.isUnaryOperator]

theorem startsNamed (mark : TokenKind) : startsNamed mark ts = startsNamed mark us := by
  cases h with
  | nil => rfl
  | cons h hs =>
    cases hs with
    | nil => rfl
    | cons h' hs => simp [LenSyntax.startsNamed, h.kind, h'.kind]

theorem noOperator {least : Nat} (hn : NoOperator least ts) : NoOperator least us := by
  cases h with
  | nil => exact hn
  | cons h hs => simpa [NoOperator, h.binaryOperator?] using hn

theorem ofHead : Found.ofHead ts = Found.ofHead us := by
  cases h with
  | nil => rfl
  | cons h hs => exact congrArg Found.token h.raw

variable (s : Surroundings) (ending : Span)

theorem atSync : s.atSync ts = (s.endingAt ending).atSync us := by
  cases h with
  | nil => rfl
  | cons h hs =>
    change s.awaits _ = s.awaits _
    rw [Surroundings.awaits, h.kind, Surroundings.awaits]

theorem endsFields : s.endsFields ts = (s.endingAt ending).endsFields us := by
  rw [Surroundings.endsFields, h.headKind?, h.atSync s ending, Surroundings.endsFields]

/-- What is skipped is found by kinds alone. -/
theorem skip (nesting : Nat) (stop stop' : Position) :
    Relaid (s.skip nesting stop ts).2 ((s.endingAt ending).skip nesting stop' us).2 := by
  induction h generalizing nesting stop stop' with
  | nil => exact .nil
  | cons h hs ih =>
    simp only [Surroundings.skip, h.kind, show (s.endingAt ending).closers = s.closers from rfl]
    split
    · exact .cons h hs
    · exact ih _ _ _

theorem missing (fault : SyntaxFault) :
    (s.missing fault ts).Alike ((s.endingAt ending).missing fault us) where
  value := by simp [Surroundings.missing]
  diagnostics := .cons (Diagnostic.alike_error rfl _ _) .nil
  rest := h

theorem recover {fault fault' : SyntaxFault} (hf : fault.message = fault'.message) :
    (s.recover fault ts).Alike ((s.endingAt ending).recover fault' us) where
  value := by simp [Surroundings.recover, hf]
  diagnostics := .cons (Diagnostic.alike_error hf _ _) .nil
  rest := h.skip s ending 0 _ _

theorem recover_ofHead (fault : Found → SyntaxFault) :
    (s.recover (fault (.ofHead ts)) ts).Alike
      ((s.endingAt ending).recover (fault (.ofHead us)) us) :=
  h.recover s ending (by rw [h.ofHead])

theorem noField :
    (ExpressionParser.noField s ts).Alike (ExpressionParser.noField (s.endingAt ending) us) := by
  unfold ExpressionParser.noField
  rw [← h.atSync s ending]
  split
  · exact h.missing s ending _
  · exact h.recover_ofHead s ending .notFieldName

end Relaid

namespace SyntaxTree
variable {t u : SyntaxTree} (h : t.unplaced = u.unplaced)
include h

theorem kind_eq_of_unplaced : t.kind = u.kind := by
  obtain ⟨kind, text, span, children⟩ := t
  obtain ⟨kind', text', span', children'⟩ := u
  rw [unplaced_node, unplaced_node] at h
  exact (node.inj h).1

theorem text_eq_of_unplaced : t.text = u.text := by
  obtain ⟨kind, text, span, children⟩ := t
  obtain ⟨kind', text', span', children'⟩ := u
  rw [unplaced_node, unplaced_node] at h
  exact (node.inj h).2.1

theorem children_eq_of_unplaced : t.children.map unplaced = u.children.map unplaced := by
  obtain ⟨kind, text, span, children⟩ := t
  obtain ⟨kind', text', span', children'⟩ := u
  rw [unplaced_node, unplaced_node] at h
  exact (node.inj h).2.2.2

end SyntaxTree

/-- Whether a name is among the fields in front does not depend on where they stand. -/
theorem hasField_eq_of_unplaced (name : Text) {ts us : List SyntaxTree}
    (h : ts.map unplaced = us.map unplaced) :
    ExpressionParser.hasField name ts = ExpressionParser.hasField name us := by
  induction ts generalizing us with
  | nil => rw [List.map_eq_nil_iff.1 h.symm]
  | cons t ts ih =>
    cases us with
    | nil => cases h
    | cons u us =>
      obtain ⟨hhead, htail⟩ := List.cons.inj h
      rw [hasField_cons, hasField_cons, kind_eq_of_unplaced hhead, text_eq_of_unplaced hhead,
        ih htail]

theorem Parsed.Alike.adding {p q : Parsed SyntaxTree} {more more' : Parsed (List SyntaxTree)}
    (h : p.Alike q) (hvalue : more.value.map unplaced = more'.value.map unplaced)
    (hdiagnostics : List.Forall₂ Diagnostic.Alike more.diagnostics more'.diagnostics)
    (hrest : Relaid more.rest more'.rest) : (p.adding more).Alike (q.adding more') where
  value := by
    simp [Parsed.adding, children_eq_of_unplaced h.value, hvalue]
  diagnostics := List.rel_append h.diagnostics hdiagnostics
  rest := hrest

/-- What the parser reads from tokens it reads from relaid ones, apart from places. -/
theorem Parses.relaid {depth : Nat} {s : Surroundings} {part part' : Part} {ts us : List Token}
    {p : Parsed SyntaxTree} (h : Parses depth s part ts p) (hpart : part.Alike part')
    (hts : Relaid ts us) (ending : Span) :
    ∃ q, Parses depth (s.endingAt ending) part' us q ∧ p.Alike q := by
  induction h generalizing part' us with
  | literal ht =>
    cases hpart
    obtain ⟨u, vs, rfl, hu, hvs⟩ := hts.exists_cons
    exact ⟨_, .literal (hu.kind ▸ ht), by simp [hu.value], .nil, hvs⟩
  | name ht ha =>
    cases hpart
    obtain ⟨u, vs, rfl, hu, hvs⟩ := hts.exists_cons
    exact ⟨_, .name (hu.kind ▸ ht) (hvs.headKind? ▸ ha), by simp [hu.value], .nil, hvs⟩
  | invalid ht =>
    cases hpart
    obtain ⟨u, vs, rfl, hu, hvs⟩ := hts.exists_cons
    exact ⟨_, .invalid (hu.kind ▸ ht), by simp [hu.raw], .nil, hvs⟩
  | lambda ht ha body ih =>
    cases hpart
    obtain ⟨u, vs, rfl, hu, hvs⟩ := hts.exists_cons
    obtain ⟨v, ws, rfl, hv, hws⟩ := hvs.exists_cons
    obtain ⟨q, hq, hpq⟩ := ih rfl hws
    exact ⟨_, .lambda (hu.kind ▸ ht) (hv.kind ▸ ha) hq, by simp [hu.value, hpq.value],
      hpq.diagnostics, hpq.rest⟩
  | @closed _ s b ts p t rest inside hr ht ih =>
    cases hpart
    obtain ⟨q, hq, hpq⟩ := ih rfl hts
    obtain ⟨u, us', hr', hu, hrest⟩ := Relaid.exists_cons (hr ▸ hpq.rest)
    exact ⟨_, .closed hq hr' (hu.kind ▸ ht), by simp [children_eq_of_unplaced hpq.value],
      hpq.diagnostics, hrest⟩
  | @unclosed _ s b ts p inside hr ih =>
    cases hpart
    obtain ⟨q, hq, hpq⟩ := ih rfl hts
    refine ⟨_, .unclosed hq (hpq.rest.headKind? ▸ hr), by simp [children_eq_of_unplaced hpq.value],
      ?_, hpq.rest⟩
    exact List.rel_append hpq.diagnostics (.cons ⟨rfl, .inr ⟨b, _, _, rfl, rfl⟩⟩ .nil)
  | missing ho hs =>
    cases hpart
    exact ⟨_, .missing (hts.startsOperand ▸ ho) (hts.atSync _ ending ▸ hs),
      hts.missing _ ending _⟩
  | unexpected ho hs =>
    cases hpart
    exact ⟨_, .unexpected (hts.startsOperand ▸ ho) (hts.atSync _ ending ▸ hs),
      hts.recover_ofHead _ ending .unexpected⟩
  | group ht body hs ih =>
    cases hpart
    obtain ⟨u, vs, rfl, hu, hvs⟩ := hts.exists_cons
    obtain ⟨q, hq, hpq⟩ := ih rfl hvs
    exact ⟨_, .group (hu.kind ▸ ht) hq (hpq.rest.atSync _ ending ▸ hs), by simp [hpq.value],
      hpq.diagnostics, hpq.rest⟩
  | @leftover _ s t ts p r ht body hs hr ih =>
    cases hpart
    obtain ⟨u, vs, rfl, hu, hvs⟩ := hts.exists_cons
    obtain ⟨q, hq, hpq⟩ := ih rfl hvs
    have hskip := hpq.rest.recover_ofHead s ending .unexpected
    rw [← hr] at hskip
    exact ⟨_, .leftover (hu.kind ▸ ht) hq (hpq.rest.atSync _ ending ▸ hs) rfl,
      by simp [hpq.value, hskip.value], List.rel_append hpq.diagnostics hskip.diagnostics,
      hskip.rest⟩
  | product ht =>
    cases hpart
    obtain ⟨u, vs, rfl, hu, hvs⟩ := hts.exists_cons
    exact ⟨_, .product (hu.kind ▸ ht), by simp, .nil, hvs⟩
  | @comma _ s ts p q t rest before he field hr ht ihb ihf =>
    cases hpart
    obtain ⟨p', hp', hp⟩ := ihb rfl hts
    have hbefore : Part.Alike (.field p.value.children) (.field p'.value.children) :=
      children_eq_of_unplaced hp.value
    obtain ⟨q', hq', hq⟩ := ihf hbefore hp.rest
    obtain ⟨u, us', hr', hu, hrest⟩ := Relaid.exists_cons (hr ▸ hq.rest)
    exact ⟨_, .comma hp' (hp.rest.endsFields _ ending ▸ he) hq' hr' (hu.kind ▸ ht),
      hp.adding (by simpa using hq.value) hq.diagnostics hrest⟩
  | @skip _ s ts p q r before he field hc hs hr ihb ihf =>
    cases hpart
    obtain ⟨p', hp', hp⟩ := ihb rfl hts
    have hbefore : Part.Alike (.field p.value.children) (.field p'.value.children) :=
      children_eq_of_unplaced hp.value
    obtain ⟨q', hq', hq⟩ := ihf hbefore hp.rest
    have hskip := hq.rest.recover_ofHead s ending .afterField
    rw [← hr] at hskip
    exact ⟨_, .skip hp' (hp.rest.endsFields _ ending ▸ he) hq' (hq.rest.headKind? ▸ hc)
      (hq.rest.atSync _ ending ▸ hs) rfl,
      hp.adding (by simpa using ⟨hq.value, hskip.value⟩)
        (List.rel_append hq.diagnostics hskip.diagnostics) hskip.rest⟩
  | @lastField _ s ts p q before he field hc hs ihb ihf =>
    cases hpart
    obtain ⟨p', hp', hp⟩ := ihb rfl hts
    have hbefore : Part.Alike (.field p.value.children) (.field p'.value.children) :=
      children_eq_of_unplaced hp.value
    obtain ⟨q', hq', hq⟩ := ihf hbefore hp.rest
    exact ⟨_, .lastField hp' (hp.rest.endsFields _ ending ▸ he) hq' (hq.rest.headKind? ▸ hc)
      (hq.rest.atSync _ ending ▸ hs), hp.adding (by simpa using hq.value) hq.diagnostics hq.rest⟩
  | noField before he ih =>
    cases hpart
    obtain ⟨q, hq, hpq⟩ := ih rfl hts
    exact ⟨_, .noField hq (hpq.rest.endsFields _ ending ▸ he), hpq⟩
  | @field _ s before t colon ts p ht hc value ih =>
    obtain ⟨before', rfl, hbefore⟩ := hpart.exists_field
    obtain ⟨u, vs, rfl, hu, hvs⟩ := hts.exists_cons
    obtain ⟨v, ws, rfl, hv, hws⟩ := hvs.exists_cons
    obtain ⟨q, hq, hpq⟩ := ih rfl hws
    refine ⟨_, .field (hu.kind ▸ ht) (hv.kind ▸ hc) hq, by simp [hu.value, hpq.value], ?_,
      hpq.rest⟩
    rw [hu.value, hasField_eq_of_unplaced u.value hbefore]
    refine List.rel_append hpq.diagnostics ?_
    split
    · exact .cons ⟨rfl, .inl rfl⟩ .nil
    · exact .nil
  | notField hn =>
    obtain ⟨before', rfl, -⟩ := hpart.exists_field
    exact ⟨_, .notField (hts.startsNamed .colon ▸ hn), hts.noField _ ending⟩
  | function operand ih =>
    cases hpart
    obtain ⟨q, hq, hpq⟩ := ih rfl hts
    exact ⟨_, .function hq, hpq⟩
  | call function ho argument ihf iha =>
    cases hpart
    obtain ⟨p', hp', hp⟩ := ihf rfl hts
    obtain ⟨q', hq', hq⟩ := iha rfl hp.rest
    exact ⟨_, .call hp' (hp.rest.startsOperand ▸ ho) hq', by simp [hp.value, hq.value],
      List.rel_append hp.diagnostics hq.diagnostics, hq.rest⟩
  | application calls ho ih =>
    cases hpart
    obtain ⟨q, hq, hpq⟩ := ih rfl hts
    exact ⟨_, .application hq (hpq.rest.startsOperand ▸ ho), hpq⟩
  | unary application hu ih =>
    cases hpart
    obtain ⟨q, hq, hpq⟩ := ih rfl hts
    exact ⟨_, .unary hq (hts.startsUnary ▸ hu), hpq⟩
  | negate ht operand ih =>
    cases hpart
    obtain ⟨u, vs, rfl, hu, hvs⟩ := hts.exists_cons
    obtain ⟨q, hq, hpq⟩ := ih rfl hvs
    exact ⟨_, .negate (hu.isUnaryOperator ▸ ht) hq,
      by simp [ExpressionParser.negate, hu.value, hpq.value], hpq.diagnostics, hpq.rest⟩
  | first operand ih =>
    cases hpart
    obtain ⟨q, hq, hpq⟩ := ih rfl hts
    exact ⟨_, .first hq, hpq⟩
  | operation left hr ht hl right ihl ihr =>
    cases hpart
    obtain ⟨p', hp', hp⟩ := ihl rfl hts
    obtain ⟨u, us', hr', hu, hrest⟩ := Relaid.exists_cons (hr ▸ hp.rest)
    obtain ⟨q', hq', hq⟩ := ihr rfl hrest
    exact ⟨_, .operation hp' hr' (hu.binaryOperator? ▸ ht) hl hq',
      by simp [hu.value, hp.value, hq.value], List.rel_append hp.diagnostics hq.diagnostics,
      hq.rest⟩
  | expression operations hn ih =>
    cases hpart
    obtain ⟨q, hq, hpq⟩ := ih rfl hts
    exact ⟨_, .expression hq (hpq.rest.noOperator hn), hpq⟩
  | @tooDeep s least ts =>
    cases hpart
    exact ⟨_, .tooDeep, hts.recover s ending rfl⟩
  | binding ht hm value ih =>
    cases hpart
    obtain ⟨u, vs, rfl, hu, hvs⟩ := hts.exists_cons
    obtain ⟨v, ws, rfl, hv, hws⟩ := hvs.exists_cons
    obtain ⟨q, hq, hpq⟩ := ih rfl hws
    exact ⟨_, .binding (hu.kind ▸ ht) (hv.kind ▸ hm) hq, by simp [hu.value, hpq.value],
      hpq.diagnostics, hpq.rest⟩
  | bare hn value ih =>
    cases hpart
    obtain ⟨q, hq, hpq⟩ := ih rfl hts
    exact ⟨_, .bare (hts.startsNamed .bind ▸ hn) hq, hpq⟩

theorem ParsesStatements.relaid {depth : Nat} {s : Surroundings} {ts us : List Token}
    {p : Parsed (List SyntaxTree)} (h : ParsesStatements depth s ts p) (hts : Relaid ts us)
    (ending : Span) :
    ∃ q, ParsesStatements depth (s.endingAt ending) us q ∧
      p.value.map unplaced = q.value.map unplaced ∧
      List.Forall₂ Diagnostic.Alike p.diagnostics q.diagnostics := by
  induction h generalizing us with
  | nil =>
    cases hts
    exact ⟨_, .nil, rfl, .nil⟩
  | semicolon ht more ih =>
    obtain ⟨u, vs, rfl, hu, hvs⟩ := hts.exists_cons
    obtain ⟨q, hq, hvalue, hdiagnostics⟩ := ih hvs
    exact ⟨q, .semicolon (hu.kind ▸ ht) hq, hvalue, hdiagnostics⟩
  | last ht one hr =>
    obtain ⟨p', hp', hp⟩ := one.relaid rfl hts ending
    obtain ⟨u, vs, rfl, hu, -⟩ := hts.exists_cons
    have hr' := List.forall₂_nil_left_iff.1 (hr ▸ hp.rest)
    exact ⟨_, .last (hu.kind ▸ ht) hp' hr', by simp [hp.value], hp.diagnostics⟩
  | next ht one hr hm more ih =>
    obtain ⟨p', hp', hp⟩ := one.relaid rfl hts ending
    obtain ⟨u, vs, rfl, hu, -⟩ := hts.exists_cons
    obtain ⟨m, rest, hr', hm', hrest⟩ := Relaid.exists_cons (hr ▸ hp.rest)
    obtain ⟨q, hq, hvalue, hdiagnostics⟩ := ih hrest
    exact ⟨_, .next (hu.kind ▸ ht) hp' hr' (hm'.kind ▸ hm) hq, by simp [hp.value, hvalue],
      List.rel_append hp.diagnostics hdiagnostics⟩
  | @skip t ts p v rest r q ht one hr hv hskip more ih =>
    obtain ⟨p', hp', hp⟩ := one.relaid rfl hts ending
    obtain ⟨u, vs, rfl, hu, -⟩ := hts.exists_cons
    have hrest := hp.rest
    rw [hr] at hrest
    obtain ⟨v', rest', hr', hv', -⟩ := hrest.exists_cons
    rw [hr'] at hrest
    have hfault : (SyntaxFault.afterStatement (.token v.raw)).message =
        (SyntaxFault.afterStatement (.token v'.raw)).message := by rw [hv'.raw]
    have hskipped := hrest.recover s ending hfault
    rw [← hskip] at hskipped
    obtain ⟨q', hq', hvalue, hdiagnostics⟩ := ih hskipped.rest
    exact ⟨_, .skip (hu.kind ▸ ht) hp' hr' (hv'.kind ▸ hv) rfl hq',
      by simp [hp.value, hskipped.value, hvalue],
      List.rel_append (List.rel_append hp.diagnostics hskipped.diagnostics) hdiagnostics⟩

/-- What a node of an arena is apart from its place in the source. -/
def ArenaNode.content (n : ArenaNode) : NodeKind × Text × List Nat := (n.kind, n.text, n.children)

/-- The arenas of trees that differ in nothing but their places do so too. -/
theorem SyntaxTree.arena_content_eq_of_unplaced {t u : SyntaxTree} (h : t.unplaced = u.unplaced) :
    t.arena.nodes.map (·.content) = u.arena.nodes.map (·.content) ∧
      t.arena.root = u.arena.root := by
  rw [unplaced_eq_respan, unplaced_eq_respan] at h
  constructor
  · have hnodes (t : SyntaxTree) : t.arena.nodes.map (·.content) =
        (t.respan fun _ => default).arena.nodes.map (·.content) := by
      rw [nodes_arena_respan, Array.map_map]
      rfl
    rw [hnodes, h, ← hnodes]
  · have hroot := congrArg (·.arena.root) h
    simpa only [root_arena_respan] using hroot

namespace Program

theorem relaid_significant {ts us : List Token}
    (h : Relaid (ts.filter (·.kind ≠ .comment)) (us.filter (·.kind ≠ .comment))) :
    Relaid (significant ts) (significant us) := by
  unfold significant
  generalize ts.filter (·.kind ≠ .comment) = seen at h
  generalize us.filter (·.kind ≠ .comment) = seen' at h
  induction h with
  | nil => exact .nil
  | @cons t u ts us h hs ih =>
    rw [List.takeWhile_cons, List.takeWhile_cons, h.kind]
    split
    · exact .cons h ih
    · exact .nil

/-- Two inputs whose tokens are the same but for comments and places have the same arena but for
spans, and the same diagnostics but for spans and for the places in which unclosed brackets are said
to be opened. -/
theorem parse_relaid (config config' : Config) (ts us : List Token)
    (hdepth : config.maxDepth = config'.maxDepth)
    (h : (ts.filter (·.kind ≠ .comment)).map (·.content) =
      (us.filter (·.kind ≠ .comment)).map (·.content)) :
    let program := parse config ts
    let program' := parse config' us
    (program.tree.arena.nodes.map (·.content) = program'.tree.arena.nodes.map (·.content) ∧
      program.tree.arena.root = program'.tree.arena.root) ∧
      List.Forall₂ Diagnostic.Alike program.diagnostics program'.diagnostics := by
  intro program program'
  have hseen : Relaid (ts.filter (·.kind ≠ .comment)) (us.filter (·.kind ≠ .comment)) := by
    rw [← List.forall₂_eq_eq_eq, List.forall₂_map_left_iff, List.forall₂_map_right_iff] at h
    exact h
  obtain ⟨q, hq, hvalue, hdiagnostics⟩ :=
    (parses_statements config.maxDepth config.maxDepth (ending ts) (significant ts)).relaid
      (relaid_significant hseen) (ending us)
  have hprogram' : statements (.nested config'.maxDepth) config'.maxDepth (ending us)
      (significant us) = q := by
    rw [← hdepth]
    exact eq_statements hq
  rw [← hprogram'] at hvalue hdiagnostics
  exact ⟨arena_content_eq_of_unplaced (by simpa [program, program', parse] using hvalue),
    hdiagnostics⟩

/-- A comment and a line feed move the group behind them, so that it is said to be opened elsewhere;
nothing else changes. -/
theorem parse_moved_group :
    let config : Config := .make true 1
    let ts := (Text.tokenStream config "f (a").tokens
    let us := (Text.tokenStream config "f // g\n(a").tokens
    let program := parse config ts
    let program' := parse config us
    (config.maxDepth = config.maxDepth ∧
        (ts.filter (·.kind ≠ .comment)).map (·.content) =
          (us.filter (·.kind ≠ .comment)).map (·.content)) ∧
      program.diagnostics.map (·.message) ≠ program'.diagnostics.map (·.message) ∧
        (program.tree.arena.nodes.map (·.content) = program'.tree.arena.nodes.map (·.content) ∧
          program.tree.arena.root = program'.tree.arena.root) ∧
          List.Forall₂ Diagnostic.Alike program.diagnostics program'.diagnostics := by
  intro config ts us program program'
  have h : (ts.filter (·.kind ≠ .comment)).map (·.content) =
      (us.filter (·.kind ≠ .comment)).map (·.content) := by decide +kernel
  exact ⟨⟨rfl, h⟩, by decide +kernel, parse_relaid config config ts us rfl h⟩

end Program

end LenSyntax

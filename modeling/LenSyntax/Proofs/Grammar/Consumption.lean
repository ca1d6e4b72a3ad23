import LenSyntax.Proofs.Grammar.Completeness
import LenSyntax.Proofs.Grammar.Concrete
import LenSyntax.Proofs.Grammar.Extent

/-! What the parser takes for which node. Each tree that it builds is a concrete tree without its
tokens: every token that it has taken belongs to a node, in its place, and the span of the node
reaches as far as its tokens do, but for a comma at their end. -/
namespace LenSyntax

open SyntaxTree (children_node span_node)

/-- No other fault reads like something that is nested too deeply. -/
theorem SyntaxFault.message_ne_tooDeep {fault : SyntaxFault} (h : ∀ limit, fault ≠ .tooDeep limit)
    (limit : Nat) : fault.message ≠ (tooDeep limit).message := by
  have hdeep : (tooDeep limit).message[3]? = some (CodePoint.ofChar 'r') := rfl
  intro he
  rw [← he] at hdeep
  cases fault with
  | tooDeep limit => exact h limit rfl
  | missingExpression | missingFieldName | afterStatement | afterField | notFieldName | openGroup
  | openProduct | invalidToken | unexpected | duplicateField =>
    exact absurd (Option.some.inj hdeep) (by decide)

theorem TokenKind.ne_error_of_literal? {k : TokenKind} {kind : NodeKind}
    (h : k.literal? = some kind) : kind ≠ .error := by
  rintro rfl
  cases k <;> cases h

theorem Bracket.node_ne_error (b : Bracket) : b.node ≠ .error := by cases b <;> decide

/-- If nothing is broken, no error is reported but that something is nested too deeply. -/
def Reports (broken : Prop) (limit : Nat) (ds : List Diagnostic) : Prop :=
  ¬ broken → OnlyTooDeep limit ds

namespace Reports
variable {broken : Prop} {limit : Nat} {ds es : List Diagnostic}

theorem left (h : Reports broken limit (ds ++ es)) : Reports broken limit ds :=
  fun hn => ((onlyTooDeep_append _ _ _).1 (h hn)).1

theorem right (h : Reports broken limit (ds ++ es)) : Reports broken limit es :=
  fun hn => ((onlyTooDeep_append _ _ _).1 (h hn)).2

/-- Where another error is reported, something is broken. -/
theorem of_error {fault : SyntaxFault} {span : Span}
    (h : Reports broken limit [.error fault.message span])
    (hf : ∀ limit, fault ≠ .tooDeep limit) : broken := by
  by_contra hn
  exact SyntaxFault.message_ne_tooDeep hf limit (h hn _ (List.mem_singleton_self _) rfl)

end Reports

namespace ConcreteTree

/-- The tokens of a node lie inside its span, but for one: unless the node is an error, the last of
them may be a comma behind the span. -/
def SpansTokens : ConcreteTree → Prop
  | token _ => True
  | node kind _ span parts => ∀ t ∈ tokensAll parts, t.span.Within span ∨
      kind ≠ .error ∧ t.kind = .comma ∧ (tokensAll parts).getLast? = some t ∧
        span.stop.offset ≤ t.span.start.offset

/-- A node holds its tokens as it should, and spans them if the tokens `all` are in order. -/
structure Sound (broken : Prop) (all : List Token) (ending : Position) (n : ConcreteTree) :
    Prop where
  laidOut : n.LaidOut broken
  spansTokens : InOrder all ending → n.SpansTokens

end ConcreteTree

open ConcreteTree

section Stages
variable (broken : Prop) (all : List Token) (ending : Position) (ts : List Token)
  (p : Parsed SyntaxTree)

/-- A tree that has been read, with its tokens. -/
structure Whole (c : ConcreteTree) : Prop where
  trees : c.trees = [p.value]
  split : ts = c.tokens ++ p.rest
  sound : ∀ n ∈ c.nodes, n.Sound broken all ending

/-- A bracket that has been read up to its closer, with the tokens behind its opener. -/
structure Opened (b : Bracket) (o : Token) (parts : List ConcreteTree) : Prop where
  opener : o.kind = b.opener
  inside : Inside broken b parts
  children : p.value.children = treesAll parts
  start : p.value.span.start = o.span.start
  split : ts = o :: (tokensAll parts ++ p.rest)
  sound : ∀ n ∈ nodesAll parts, n.Sound broken all ending

/-- What a part is with its tokens. -/
def Part.Concrete : Part → Prop
  | .fields => ∃ o parts, Opened broken all ending ts p .brace o parts
  | .inside b => ∃ o parts, Opened broken all ending ts p b o parts
  | _ => ∃ c, Whole broken all ending ts p c

end Stages

section Parses
variable {broken : Prop} {all : List Token} {depth : Nat} {s : Surroundings} {part : Part}
  {ts : List Token} {p : Parsed SyntaxTree}

theorem Whole.rest_suffix {ending : Position} {c : ConcreteTree}
    (h : Whole broken all ending ts p c) : p.rest <:+ ts :=
  ⟨c.tokens, h.split.symm⟩

theorem Opened.rest_suffix {ending : Position} {b : Bracket} {o : Token}
    {parts : List ConcreteTree} (h : Opened broken all ending ts p b o parts) : p.rest <:+ ts :=
  ⟨o :: tokensAll parts, h.split.symm⟩

/-- A product goes on with further parts. -/
theorem Opened.adding {ending : Position} {o : Token} {parts : List ConcreteTree}
    (h : Opened broken all ending ts p .brace o parts) {more : Parsed (List SyntaxTree)}
    {cs : List ConcreteTree} (hv : more.value = treesAll cs)
    (hsplit : p.rest = tokensAll cs ++ more.rest)
    (hcomma : ∀ t, token t ∈ cs → t.kind = .comma)
    (hsound : ∀ n ∈ nodesAll cs, n.Sound broken all ending) :
    Opened broken all ending ts (p.adding more) .brace o (parts ++ cs) where
  opener := h.opener
  inside := h.inside.append hcomma
  children := by simp [Parsed.adding, h.children, hv]
  start := h.start
  split := by rw [tokensAll_append, List.append_assoc, Parsed.adding, ← hsplit, ← h.split]
  sound := by
    simp only [nodesAll_append, List.mem_append, or_imp, forall_and]
    exact ⟨h.sound, hsound⟩

/-- What has been read spans the tokens taken for it. -/
theorem Parses.spansTokens (h : Parses depth s part ts p) (hs : ts <:+ all) {kind : NodeKind}
    (hk : kind ≠ .error) (text : Text) {parts : List ConcreteTree}
    (hsplit : ts = tokensAll parts ++ p.rest) (hall : InOrder all s.ending.start) :
    (node kind text p.value.span parts).SpansTokens := by
  obtain ⟨w, hw, hfits⟩ := h.fits hall hs
  obtain ⟨v, hcovers⟩ := h.exists_covers hall hs
  obtain rfl : w = tokensAll parts := List.append_cancel_right (hw.symm.trans hsplit)
  intro t ht
  have hstart := hall.here_le_start hs (hw ▸ List.mem_append_left p.rest ht)
  rw [← hcovers.start] at hstart
  obtain hstop | hcomma := hfits.stop_le_or ht
  · exact .inl ⟨hstart, hstop⟩
  · exact .inr ⟨hk, hcomma⟩

/-- A node that has been read is whole if all below it is sound. -/
theorem Parses.whole (h : Parses depth s part ts p) (hs : ts <:+ all)
    (parts : List ConcreteTree) (hv : p.value.children = treesAll parts)
    (hsplit : ts = tokensAll parts ++ p.rest) (hk : p.value.kind ≠ .error)
    (hl : LaidOut broken (node p.value.kind p.value.text p.value.span parts))
    (hbelow : ∀ n ∈ nodesAll parts, n.Sound broken all s.ending.start) :
    Whole broken all s.ending.start ts p
      (node p.value.kind p.value.text p.value.span parts) where
  trees := by
    rw [trees, ← hv]
    cases p.value
    rfl
  split := hsplit
  sound := by
    rw [nodes, List.forall_mem_cons]
    exact ⟨⟨hl, h.spansTokens hs hk _ hsplit⟩, hbelow⟩

/-- An error node holds the tokens that are skipped. -/
theorem whole_error {ending : Position} {text : Text} {span : Span} {ds : List Diagnostic}
    {w rest : List Token} (hw : ts = w ++ rest)
    (hspan : InOrder all ending → ∀ t ∈ w, t.span.Within span) :
    Whole broken all ending ts ⟨.node .error text span [], ds, rest⟩
      (node .error text span (w.map token)) where
  trees := by simp [trees]
  split := by simpa [tokens] using hw
  sound := by
    simp only [nodes, nodesAll_map_token, List.mem_singleton, forall_eq]
    refine ⟨.error w, fun hall t ht => .inl (hspan hall t ?_)⟩
    rwa [tokensAll_map_token] at ht

theorem Surroundings.exists_whole_recover (hs : ts <:+ all) (fault : SyntaxFault) :
    ∃ c, Whole broken all s.ending.start ts (s.recover fault ts) c := by
  obtain ⟨w, hw, -⟩ := s.exists_skip 0 (s.here ts).start ts
  refine ⟨_, whole_error hw ?_⟩
  intro hall t ht
  obtain ⟨v, hv, hfits⟩ : ∃ v, ts = v ++ (s.recover fault ts).rest ∧
      Fits (s.recover fault ts).value.span.stop False v := s.recover_fits hall hs fault
  obtain rfl : v = w := List.append_cancel_right (hv.symm.trans hw)
  have hmem : t ∈ ts := by
    rw [hv]
    exact List.mem_append_left _ ht
  cases hfits with
  | inside h => exact ⟨hall.here_le_start hs hmem, h t ht⟩
  | trailing hm => exact hm.elim

theorem exists_whole_noField (hs : ts <:+ all) :
    ∃ c, Whole broken all s.ending.start ts (ExpressionParser.noField s ts) c := by
  unfold ExpressionParser.noField
  split
  · exact ⟨_, whole_error (w := []) rfl (by simp)⟩
  · exact Surroundings.exists_whole_recover hs _

/-- A name, a mark and a tree behind them. -/
theorem Parses.exists_whole_named {t m : Token} {more : List Token} {q : Parsed SyntaxTree}
    (h : Parses depth s part (t :: m :: more) p) (hs : t :: m :: more <:+ all)
    (ht : t.kind = .identifier) (hk : (p.value.kind, m.kind) ∈ marks)
    (hq : ∃ c, Whole broken all s.ending.start more q c) (hv : p.value.children = [q.value])
    (htext : p.value.text = t.value) (hr : p.rest = q.rest) :
    ∃ c, Whole broken all s.ending.start (t :: m :: more) p c := by
  obtain ⟨c, hc⟩ := hq
  have herror : p.value.kind ≠ .error := by
    intro he
    simp [he, marks] at hk
  refine ⟨_, h.whole hs [token t, token m, c] ?_ ?_ herror ?_ ?_⟩
  · simp [treesAll, trees, hc.trees, hv]
  · simp [tokensAll, tokens, hc.split, hr]
  · rw [htext]
    exact .named hk ht rfl (isNode_of_trees hc.trees)
  · simpa [nodesAll, nodes] using hc.sound

/-- Each part is read as a concrete tree without its tokens. If nothing is broken but that something
is nested too deeply, each bracket has its closer. -/
theorem Parses.concrete (h : Parses depth s part ts p) (hs : ts <:+ all)
    (hb : Reports broken s.limit p.diagnostics) :
    part.Concrete broken all s.ending.start ts p := by
  induction h with
  | @literal depth s t ts kind ht =>
    exact ⟨_, (@Parses.literal depth s t ts kind ht).whole hs [token t] rfl rfl
      (TokenKind.ne_error_of_literal? ht) (.literal ht) (by simp [nodesAll, nodes])⟩
  | @name depth s t ts ht ha =>
    exact ⟨_, (@Parses.name depth s t ts ht ha).whole hs [token t] rfl rfl
      (by simp) (.name ht) (by simp [nodesAll, nodes])⟩
  | @invalid _ s t ts ht =>
    exact ⟨_, whole_error (w := [t]) rfl (by simp [Span.Within])⟩
  | lambda ht ha body ih =>
    have hbody := ih (suffix_of_cons (suffix_of_cons hs)) hb
    exact (Parses.lambda ht ha body).exists_whole_named hs ht (by simp [ha, marks]) hbody
      rfl rfl rfl
  | @closed _ s b ts p t rest inside hr ht ih =>
    obtain ⟨o, parts, ho⟩ := ih hs hb
    have hsound : ∀ n ∈ nodesAll parts, n.Sound broken all s.ending.start := ho.sound
    refine ⟨_, (Parses.closed inside hr ht).whole hs (token o :: parts ++ [token t])
      ?_ ?_ b.node_ne_error ?_ ?_⟩
    · simp [treesAll, trees, ho.children]
    · simp [tokensAll, tokens, ho.split, hr]
    · rw [ho.start]
      exact .closed ho.opener ho.inside ht
    · simpa [nodesAll, nodes] using hsound
  | @unclosed _ s b ts p inside hr ih =>
    obtain ⟨o, parts, ho⟩ := ih hs hb.left
    have hsound : ∀ n ∈ nodesAll parts, n.Sound broken all s.ending.start := ho.sound
    have hbroken : broken := hb.right.of_error (by cases b <;> simp)
    refine ⟨_, (Parses.unclosed inside hr).whole hs (token o :: parts)
      ?_ ?_ b.node_ne_error ?_ ?_⟩
    · simp [treesAll, trees, ho.children]
    · simp [tokensAll, tokens, ho.split]
    · have hlaid : LaidOut broken (node b.node [] ⟨o.span.start, p.value.span.stop⟩
          (token o :: parts)) := .unclosed hbroken ho.opener ho.inside
      rwa [← ho.start] at hlaid
    · simpa [nodesAll, nodes] using hsound
  | missing => exact ⟨_, whole_error (w := []) rfl (by simp)⟩
  | unexpected => exact Surroundings.exists_whole_recover hs _
  | @group _ s t ts p ht body hsync ih =>
    obtain ⟨c, hc⟩ := ih (suffix_of_cons hs) hb
    refine ⟨t, [c], ht, .expression (isNode_of_trees hc.trees), ?_, rfl, ?_, ?_⟩
    · simp [treesAll, hc.trees]
    · simp [tokensAll, hc.split]
    · simpa [nodesAll] using hc.sound
  | @leftover _ s t ts p q ht body hsync hq ih =>
    have hmore := suffix_of_cons hs
    obtain ⟨c, hc⟩ := ih hmore hb.left
    obtain ⟨d, hd⟩ : ∃ d, Whole broken all s.ending.start p.rest q d :=
      hq ▸ Surroundings.exists_whole_recover (hc.rest_suffix.trans hmore) _
    have hright := hb.right
    rw [hq] at hright
    have hbroken : broken := hright.of_error (by simp)
    refine ⟨t, [c, d], ht, .leftover hbroken (isNode_of_trees hc.trees)
      (isNode_of_trees hd.trees), ?_, rfl, ?_, ?_⟩
    · simp [treesAll, hc.trees, hd.trees]
    · simp [tokensAll, hc.split, hd.split]
    · simpa [nodesAll, or_imp, forall_and] using ⟨hc.sound, hd.sound⟩
  | @product _ s t ts ht =>
    exact ⟨t, [], ht, .fields (by simp), rfl, rfl, rfl, by simp [nodesAll]⟩
  | @comma _ s ts p q t rest before he field hr ht ihb ihf =>
    obtain ⟨o, parts, ho⟩ := ihb hs hb.left
    obtain ⟨c, hc⟩ := ihf (ho.rest_suffix.trans hs) hb.right
    have hnode := token_ne_of_isNode (isNode_of_trees hc.trees)
    refine ⟨o, parts ++ [c, token t], ho.adding ?_ ?_ ?_ ?_⟩
    · simp [treesAll, trees, hc.trees]
    · simp [tokensAll, tokens, hc.split, hr]
    · simpa [hnode] using ht
    · simpa [nodesAll, nodes] using hc.sound
  | @skip _ s ts p q r before he field hc' hsync hr ihb ihf =>
    obtain ⟨o, parts, ho⟩ := ihb hs hb.left
    have hrest := ho.rest_suffix.trans hs
    obtain ⟨c, hc⟩ := ihf hrest hb.right.left
    obtain ⟨d, hd⟩ : ∃ d, Whole broken all s.ending.start q.rest r d :=
      hr ▸ Surroundings.exists_whole_recover (hc.rest_suffix.trans hrest) _
    have hnode := token_ne_of_isNode (isNode_of_trees hc.trees)
    have hnode' := token_ne_of_isNode (isNode_of_trees hd.trees)
    refine ⟨o, parts ++ [c, d], ho.adding ?_ ?_ ?_ ?_⟩
    · simp [treesAll, hc.trees, hd.trees]
    · simp [tokensAll, hc.split, hd.split]
    · simp [hnode, hnode']
    · simpa [nodesAll, or_imp, forall_and] using ⟨hc.sound, hd.sound⟩
  | @lastField _ s ts p q before he field hc' hsync ihb ihf =>
    obtain ⟨o, parts, ho⟩ := ihb hs hb.left
    obtain ⟨c, hc⟩ := ihf (ho.rest_suffix.trans hs) hb.right
    have hnode := token_ne_of_isNode (isNode_of_trees hc.trees)
    refine ⟨o, parts ++ [c], ho.adding ?_ ?_ ?_ ?_⟩
    · simp [treesAll, hc.trees]
    · simp [tokensAll, hc.split]
    · simp [hnode]
    · simpa [nodesAll] using hc.sound
  | noField before he ih => exact ih hs hb
  | @field _ s before t colon ts p ht hc value ih =>
    have hvalue := ih (suffix_of_cons (suffix_of_cons hs)) hb.left
    exact (@Parses.field _ s before t colon ts p ht hc value).exists_whole_named hs ht
      (by simp [hc, marks]) hvalue rfl rfl rfl
  | notField hn => exact exists_whole_noField hs
  | function operand ih => exact ih hs hb
  | @call _ s ts p q function ho argument ihf iha =>
    obtain ⟨c, hc⟩ := ihf hs hb.left
    obtain ⟨d, hd⟩ := iha (hc.rest_suffix.trans hs) hb.right
    refine ⟨_, (Parses.call function ho argument).whole hs [c, d] ?_ ?_ (by simp)
      (.call (isNode_of_trees hc.trees) (isNode_of_trees hd.trees)) ?_⟩
    · simp [treesAll, hc.trees, hd.trees]
    · simp [tokensAll, hc.split, hd.split]
    · simpa [nodesAll, or_imp, forall_and] using ⟨hc.sound, hd.sound⟩
  | application calls ho ih => exact ih hs hb
  | unary application hu ih => exact ih hs hb
  | @negate _ s t ts p ht operand ih =>
    obtain ⟨c, hc⟩ := ih (suffix_of_cons hs) hb
    refine ⟨_, (Parses.negate ht operand).whole hs [token t, c] ?_ ?_
      (by simp [ExpressionParser.negate])
      (.unary ht (isNode_of_trees hc.trees)) ?_⟩
    · simp [treesAll, trees, hc.trees, ExpressionParser.negate]
    · simp [tokensAll, tokens, hc.split]
    · simpa [nodesAll, nodes] using hc.sound
  | first operand ih => exact ih hs hb
  | @operation _ s least ts p t rest operator q left hr ht hl right ihl ihr =>
    obtain ⟨c, hc⟩ := ihl hs hb.left
    have hrest := hc.rest_suffix.trans hs
    rw [hr] at hrest
    obtain ⟨d, hd⟩ := ihr (suffix_of_cons hrest) hb.right
    refine ⟨_, (Parses.operation left hr ht hl right).whole hs [c, token t, d]
      ?_ ?_ (by simp) (.binary (isNode_of_trees hc.trees) (Option.isSome_of_mem ht)
        (isNode_of_trees hd.trees)) ?_⟩
    · simp [treesAll, trees, hc.trees, hd.trees]
    · simp [tokensAll, tokens, hc.split, hr, hd.split]
    · simpa [nodesAll, nodes, or_imp, forall_and] using ⟨hc.sound, hd.sound⟩
  | expression operations hn ih => exact ih hs hb
  | tooDeep => exact Surroundings.exists_whole_recover hs _
  | binding ht hm value ih =>
    have hvalue := ih (suffix_of_cons (suffix_of_cons hs)) hb
    exact (Parses.binding ht hm value).exists_whole_named hs ht (by simp [hm, marks]) hvalue
      rfl rfl rfl
  | bare hn value ih => exact ih hs hb

/-- Statements that have been read, with their tokens and the semicolons between them. -/
structure Listed (broken : Prop) (all : List Token) (ending : Position) (ts : List Token)
    (statements : List SyntaxTree) (parts : List ConcreteTree) : Prop where
  trees : treesAll parts = statements
  tokens : tokensAll parts = ts
  semicolon : ∀ t, token t ∈ parts → t.kind = .semicolon
  sound : ∀ n ∈ nodesAll parts, n.Sound broken all ending

namespace Listed
variable {ending : Position} {statements : List SyntaxTree} {parts : List ConcreteTree}

theorem nil : Listed broken all ending [] [] [] := ⟨rfl, rfl, by simp, by simp [nodesAll]⟩

theorem mark {m : Token} (hm : m.kind = .semicolon)
    (h : Listed broken all ending ts statements parts) :
    Listed broken all ending (m :: ts) statements (token m :: parts) where
  trees := by simp [treesAll, ConcreteTree.trees, h.trees]
  tokens := by simp [tokensAll, ConcreteTree.tokens, h.tokens]
  semicolon := by simpa [hm] using h.semicolon
  sound := by simpa [nodesAll, nodes] using h.sound

theorem cons {c : ConcreteTree} (hc : Whole broken all ending ts p c)
    (h : Listed broken all ending p.rest statements parts) :
    Listed broken all ending ts (p.value :: statements) (c :: parts) where
  trees := by simp [treesAll, hc.trees, h.trees]
  tokens := by rw [tokensAll, h.tokens, ← hc.split]
  semicolon := by simpa [token_ne_of_isNode (isNode_of_trees hc.trees)] using h.semicolon
  sound := by simpa [nodesAll, or_imp, forall_and] using ⟨hc.sound, h.sound⟩

end Listed

variable (broken) in
/-- Statements are read as concrete trees without their tokens. -/
theorem ParsesStatements.exists_listed {p : Parsed (List SyntaxTree)}
    (h : ParsesStatements depth s ts p) (hs : ts <:+ all)
    (hb : Reports broken s.limit p.diagnostics) :
    ∃ parts, Listed broken all s.ending.start ts p.value parts := by
  induction h with
  | nil => exact ⟨[], .nil⟩
  | semicolon ht more ih =>
    obtain ⟨parts, hparts⟩ := ih (suffix_of_cons hs) hb
    exact ⟨_, hparts.mark ht⟩
  | last ht one hr =>
    obtain ⟨c, hc⟩ := one.concrete hs hb
    exact ⟨[c], .cons hc (hr ▸ .nil)⟩
  | next ht one hr hm more ih =>
    obtain ⟨c, hc⟩ := one.concrete hs hb.left
    have hrest := hr ▸ hc.rest_suffix.trans hs
    obtain ⟨parts, hparts⟩ := ih (suffix_of_cons hrest) hb.right
    exact ⟨_, .cons hc (hr ▸ hparts.mark hm)⟩
  | @skip t ts p u rest r q ht one hr hu hskip more ih =>
    obtain ⟨c, hc⟩ := one.concrete hs hb.left.left
    have hrest := hr ▸ hc.rest_suffix.trans hs
    obtain ⟨d, hd⟩ : ∃ d, Whole broken all s.ending.start (u :: rest) r d :=
      hskip ▸ Surroundings.exists_whole_recover hrest _
    obtain ⟨parts, hparts⟩ := ih (hd.rest_suffix.trans hrest) hb.right
    have hmore := Listed.cons hd hparts
    exact ⟨_, .cons hc (hr ▸ hmore)⟩

end Parses

namespace Program

/-- Each token belongs to a node, in its place, and lies inside the span of every node that has
taken it, but for one: a comma at the end of a node may stand behind its span. -/
theorem spansTokens_parse (config : Config) (source : Text) :
    let tokens := (source.tokenStream config).tokens
    ∃ c : ConcreteTree, c.trees = [(parse config tokens).tree] ∧
      c.tokens = significant tokens ∧ ∀ n ∈ c.nodes, n.LaidOut True ∧ n.SpansTokens := by
  intro tokens
  have hground := grounded_significant config source
  obtain ⟨parts, hparts⟩ := (parses_statements config.maxDepth config.maxDepth (ending tokens)
    (significant tokens)).exists_listed True (List.suffix_refl _) (absurd trivial)
  refine ⟨node .program [] ⟨.origin, (ending tokens).stop⟩ parts, ?_, ?_, ?_⟩
  · rw [trees, hparts.trees]
    rfl
  · rw [ConcreteTree.tokens, hparts.tokens]
  · rw [nodes, List.forall_mem_cons]
    refine ⟨⟨.program hparts.semicolon, ?_⟩, fun n hn => ?_⟩
    · intro t ht
      rw [hparts.tokens] at ht
      have hstop : (ending tokens).start.offset ≤ (ending tokens).stop.offset :=
        hground.ending.ordered
      exact .inl ⟨(hground.tokens t ht).start.offset_nonneg,
        Int.le_trans (hground.order.stop_le t ht) hstop⟩
    · have hsound := hparts.sound n hn
      exact ⟨hsound.laidOut, hsound.spansTokens hground.order⟩

/-- An unclosed product ends with its last field; the comma behind that field is still its own. -/
example :
    let tokens := (Text.tokenStream (.make false 2) "\x7ba: 1,").tokens
    (parse (.make false 2) tokens).tree.children.map (·.span.stop.offset) = [5] ∧
      tokens.map (·.span.stop.offset) = [1, 2, 3, 5, 6, 6] := by
  decide +kernel

end Program

end LenSyntax

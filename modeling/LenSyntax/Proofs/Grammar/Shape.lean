import LenSyntax.Proofs.Grammar.Completeness
import LenSyntax.Proofs.Tree.Nodes

/-! The shape of the trees that the parser builds. Whatever the tokens are, each node has the
children that the grammar gives it, operations are grouped by precedence, and a lambda extends as
far as it can. -/
namespace LenSyntax

open SyntaxTree

namespace NodeKind

/-- Whether a node of such a kind is an expression. -/
def isExpression (k : NodeKind) : Bool := k ∉ [program, binding, field]

/-- Whether an expression of such a kind ends with an expression that nothing closes off. -/
def isOperation (k : NodeKind) : Bool := k ∈ [unary, binary, call]

/-- Whether a node of such a kind is an operand. -/
def isOperand (k : NodeKind) : Bool := k.isExpression && !k.isOperation

theorem isOperand_spec {k : NodeKind} (h : k.isOperand) :
    k.isExpression ∧ k ∉ [call, unary, binary] := by
  cases k <;> first | decide | cases h

end NodeKind

/-- The least precedence that an operator in the left operand may have. -/
def BinaryOperator.leftLeast (op : BinaryOperator) : Nat :=
  if op.rightAssociative then op.precedence + 1 else op.precedence

namespace SyntaxTree

/-- The operator of a binary operation. -/
def operator? (t : SyntaxTree) : Option BinaryOperator :=
  if t.kind = .binary then binaryOperators.lookup t.text else none

/-- What the grammar says of a node: how many children of which kinds it has, and that it has a text
only where the kind asks for one. Only a program has bindings and only a product has fields below
it; nothing has a program below it. -/
def Regular : SyntaxTree → Prop
  | node .program text _ statements =>
    text = [] ∧ ∀ t ∈ statements, t.kind.isExpression ∨ t.kind = .binding
  | node .binding _ _ [value] => value.kind.isExpression
  | node .field _ _ [value] => value.kind.isExpression
  | node .lambda _ _ [body] => body.kind.isExpression
  | node .unary text _ [operand] =>
    text ∈ unaryOperators ∧ operand.kind.isExpression ∧ operand.kind ≠ .binary
  | node .binary text _ [left, right] =>
    left.kind.isExpression ∧ right.kind.isExpression ∧
      ∃ operator, binaryOperators.lookup text = some operator ∧
        (∀ inner ∈ left.operator?, operator.leftLeast ≤ inner.precedence) ∧
        (∀ inner ∈ right.operator?, operator.rightLeast ≤ inner.precedence)
  | node .call text _ [function, argument] =>
    text = [] ∧
      (function.kind.isExpression ∧ function.kind ∉ [.lambda, .unary, .binary]) ∧
      argument.kind.isExpression ∧ argument.kind ∉ [.call, .unary, .binary]
  | node .group text _ [inner] => text = [] ∧ inner.kind.isExpression
  | node .group text _ [inner, skipped] =>
    text = [] ∧ inner.kind.isExpression ∧ skipped.kind = .error
  | node .product text _ fields => text = [] ∧ ∀ t ∈ fields, t.kind = .field ∨ t.kind = .error
  | node .number _ _ [] | node .string _ _ [] | node .boolean _ _ [] | node .identifier _ _ []
  | node .error _ _ [] => True
  | _ => False

/-- `Reaches t l`: the tree `l` stands in `t` with nothing but operations and calls around it. -/
inductive Reaches : SyntaxTree → SyntaxTree → Prop
  | refl {t} : Reaches t t
  | child {kind text span children c l} (hk : kind.isOperation) (hc : c ∈ children)
      (below : Reaches c l) : Reaches (node kind text span children) l

/-- Whether a lambda stands in a tree with nothing but operations and calls around it. -/
def ExposesLambda (t : SyntaxTree) : Prop := ∃ l, Reaches t l ∧ l.kind = .lambda

/-- Of the operands of an operation only the last may hold a lambda that nothing closes off. -/
def LambdaLast (t : SyntaxTree) : Prop :=
  t.kind.isOperation → ∀ c ∈ t.children.dropLast, ¬ c.ExposesLambda

/-- All nodes are as the grammar says. -/
def WellShaped (t : SyntaxTree) : Prop := ∀ n ∈ t.nodes, n.Regular ∧ n.LambdaLast

/-- A program all nodes of which are as the grammar says. -/
structure Grammatical (t : SyntaxTree) : Prop where
  root : t.kind = .program
  shape : t.WellShaped

section Node
variable {kind : NodeKind} {text : Text} {span : Span} {children : List SyntaxTree}

theorem wellShaped_node :
    (node kind text span children).WellShaped ↔
      ((node kind text span children).Regular ∧ (node kind text span children).LambdaLast) ∧
        ∀ c ∈ children, c.WellShaped :=
  forall_mem_nodes kind text span children

theorem exposesLambda_node :
    (node kind text span children).ExposesLambda ↔
      kind = .lambda ∨ (kind.isOperation ∧ ∃ c ∈ children, c.ExposesLambda) := by
  constructor
  · rintro ⟨l, hl, hk⟩
    cases hl with
    | refl => exact .inl hk
    | child ho hc below => exact .inr ⟨ho, _, hc, l, below, hk⟩
  · rintro (rfl | ⟨ho, c, hc, l, hl, hk⟩)
    · exact ⟨_, .refl, rfl⟩
    · exact ⟨l, .child ho hc hl, hk⟩

@[simp] theorem operator?_node :
    (node kind text span children).operator? =
      if kind = .binary then binaryOperators.lookup text else none := rfl

theorem operator?_eq_none {t : SyntaxTree} (h : t.kind ≠ .binary) : t.operator? = none := if_neg h

theorem lookup_of_operator? {t : SyntaxTree} {o : BinaryOperator} (h : o ∈ t.operator?) :
    binaryOperators.lookup t.text = some o := by
  unfold operator? at h
  split at h
  · exact h
  · cases h

theorem lambdaLast_of_kind (hk : kind.isOperation = false) :
    (node kind text span children).LambdaLast := by
  intro ho
  rw [kind_node, hk] at ho
  cases ho

/-- Where a bracket ends does not matter. -/
theorem WellShaped.bracket {b : Bracket} (h : (node b.node text span children).WellShaped)
    (span' : Span) : (node b.node text span' children).WellShaped := by
  rw [wellShaped_node] at h ⊢
  refine ⟨⟨?_, lambdaLast_of_kind (by cases b <;> rfl)⟩, h.2⟩
  have hregular := h.1.1
  cases b with
  | paren => match children, hregular with
    | [_], hregular | [_, _], hregular => exact hregular
  | brace => exact hregular

theorem wellShaped_leaf (hk : kind ∈ [NodeKind.number, .string, .boolean, .identifier, .error]) :
    (node kind text span []).WellShaped := by
  rw [wellShaped_node]
  refine ⟨⟨?_, lambdaLast_of_kind ?_⟩, by simp⟩
  · cases kind <;> simp [Regular] at hk ⊢
  · cases kind <;> simp [NodeKind.isOperation] at hk ⊢

/-- A node with one child, which is an expression. -/
theorem wellShaped_single {t : SyntaxTree} (hk : kind ∈ [NodeKind.binding, .field, .lambda])
    (ht : t.WellShaped) (he : t.kind.isExpression) : (node kind text span [t]).WellShaped := by
  rw [wellShaped_node]
  refine ⟨⟨?_, lambdaLast_of_kind ?_⟩, by simpa using ht⟩
  · cases kind <;> simp [Regular] at hk ⊢ <;> exact he
  · cases kind <;> simp [NodeKind.isOperation] at hk ⊢

end Node

end SyntaxTree

theorem Token.lookup_of_binaryOperator? {t : Token} {operator : BinaryOperator}
    (h : t.binaryOperator? = some operator) : binaryOperators.lookup t.value = some operator := by
  unfold binaryOperator? at h
  split at h
  · exact h
  · cases h

theorem Token.value_of_isUnaryOperator {t : Token} (h : t.isUnaryOperator) :
    t.value ∈ unaryOperators := by
  simp only [isUnaryOperator, Bool.and_eq_true, decide_eq_true_eq] at h
  exact h.2

/-- Operators of one precedence associate alike, so an operator may have another on its left exactly
if it cannot go on behind the right operand of the other. -/
theorem leftLeast_le_iff {text text' : Text} {operator inner : BinaryOperator}
    (ho : binaryOperators.lookup text = some operator)
    (hi : binaryOperators.lookup text' = some inner) :
    operator.leftLeast ≤ inner.precedence ↔ operator.precedence < inner.rightLeast := by
  have halike : ∀ a ∈ binaryOperators, ∀ b ∈ binaryOperators,
      a.2.precedence = b.2.precedence → a.2.rightAssociative = b.2.rightAssociative := by decide
  have hmem {text : Text} {op : BinaryOperator} (h : binaryOperators.lookup text = some op) :
      (text, op) ∈ binaryOperators := by
    obtain ⟨l, r, hl, -⟩ := List.lookup_eq_some_iff.1 h
    simp [hl]
  have hassoc := halike _ (hmem ho) _ (hmem hi)
  simp only [BinaryOperator.rightLeast, BinaryOperator.leftLeast]
  grind

theorem noOperator_cons {least : Nat} {t : Token} {operator : BinaryOperator}
    (ht : t.binaryOperator? = some operator) (ts : List Token) :
    NoOperator least (t :: ts) ↔ operator.precedence < least := by
  simp [NoOperator, ht]

theorem NoOperator.mono {least least' : Nat} {ts : List Token} (h : NoOperator least ts)
    (hle : least ≤ least') : NoOperator least' ts :=
  fun t ht operator ho => Nat.lt_of_lt_of_le (h t ht operator ho) hle

/-- An expression cannot go on here: neither an operand nor an operator comes next. -/
def Ends (ts : List Token) : Prop := ¬ startsOperand ts ∧ NoOperator lowestPrecedence ts

theorem Stops.ends {ts : List Token} (h : Stops ts) : Ends ts :=
  ⟨h.not_startsOperand, h.noOperator lowestPrecedence⟩

/-- What may follow a tree: behind a lambda that nothing closes off an expression cannot go on, and
behind an operation no operator comes that its right operand would take. -/
structure Follows (t : SyntaxTree) (rest : List Token) : Prop where
  lambda : t.ExposesLambda → Ends rest
  operator : ∀ o ∈ t.operator?, NoOperator o.rightLeast rest

theorem Follows.of_kind {t : SyntaxTree} {rest : List Token}
    (ho : t.kind.isOperation = false) (hl : t.kind ≠ .lambda) : Follows t rest := by
  obtain ⟨kind, text, span, children⟩ := t
  rw [kind_node] at ho hl
  constructor
  · rw [exposesLambda_node, ho]
    simp [hl]
  · rintro o h
    rw [operator?_node, if_neg (by rintro rfl; cases ho)] at h
    cases h

namespace Part

/-- The trees that may be read as a part. -/
def Takes : Part → SyntaxTree → Prop
  | .operand, t => t.kind.isOperand
  | .calls, t | .application, t => t.kind.isExpression ∧ t.kind ∉ [.unary, .binary]
  | .unary, t => t.kind.isExpression ∧ t.kind ≠ .binary
  | .operations least, t | .expression least, t =>
    t.kind.isExpression ∧ ∀ o ∈ t.operator?, least ≤ o.precedence
  | .field _, t => t.kind = .field ∨ t.kind = .error
  | .fields, t => ∃ span children, t = node .product [] span children
  | .inside b, t => ∃ span children, t = node b.node [] span children
  | .statement, t => t.kind.isExpression ∨ t.kind = .binding

/-- Where a part may stop being read. -/
def StopsAt : Part → List Token → Prop
  | .application, ts | .unary, ts | .operations _, ts => ¬ startsOperand ts
  | .expression least, ts => ¬ startsOperand ts ∧ NoOperator least ts
  | _, _ => True

end Part

/-- What is read as a part is shaped as the part asks for, and what follows may follow it. -/
structure Shaped (part : Part) (p : Parsed SyntaxTree) : Prop where
  shape : p.value.WellShaped
  takes : part.Takes p.value
  follows : Follows p.value p.rest
  stops : part.StopsAt p.rest

/-- An error node may stand wherever an operand or a field may. -/
theorem shaped_error {part : Part} {text : Text} {span : Span} {ds : List Diagnostic}
    {rest : List Token} (htakes : part.Takes (node .error text span []))
    (hstops : part.StopsAt rest) : Shaped part ⟨node .error text span [], ds, rest⟩ :=
  ⟨wellShaped_leaf (by decide), htakes, .of_kind rfl (by simp), hstops⟩

theorem shaped_noField (s : Surroundings) (before : List SyntaxTree) (ts : List Token) :
    Shaped (.field before) (ExpressionParser.noField s ts) := by
  unfold ExpressionParser.noField
  split
  · exact shaped_error (.inr rfl) trivial
  · exact shaped_error (.inr rfl) trivial

/-- More fields, and what is skipped behind them, leave a product one. -/
theorem Shaped.adding {p : Parsed SyntaxTree} (hp : Shaped .fields p)
    {more : Parsed (List SyntaxTree)} (hshape : ∀ t ∈ more.value, t.WellShaped)
    (hkind : ∀ t ∈ more.value, t.kind = .field ∨ t.kind = .error) :
    Shaped .fields (p.adding more) := by
  obtain ⟨span, children, hv⟩ := hp.takes
  have hold := hp.shape
  rw [hv, wellShaped_node] at hold
  refine ⟨?_, ⟨_, _, rfl⟩, .of_kind rfl (by simp [Parsed.adding]), trivial⟩
  simp only [Parsed.adding, hv, children_node, wellShaped_node]
  refine ⟨⟨⟨rfl, ?_⟩, lambdaLast_of_kind rfl⟩, ?_⟩
  · intro t ht
    obtain ht | ht := List.mem_append.1 ht
    · exact hold.1.1.2 t ht
    · exact hkind t ht
  · intro t ht
    obtain ht | ht := List.mem_append.1 ht
    · exact hold.2 t ht
    · exact hshape t ht

theorem Shaped.brace {p : Parsed SyntaxTree} (hp : Shaped .fields p) :
    Shaped (.inside .brace) p := ⟨hp.shape, hp.takes, hp.follows, trivial⟩

/-- A bracket is an operand once it is read, closed or not. -/
theorem Shaped.bracket {b : Bracket} {p : Parsed SyntaxTree} (hp : Shaped (.inside b) p)
    (span : Span) (ds : List Diagnostic) (rest : List Token) :
    Shaped .operand ⟨node b.node [] span p.value.children, ds, rest⟩ := by
  obtain ⟨span', children, hv⟩ := hp.takes
  have hshape := hp.shape
  rw [hv] at hshape ⊢
  have hkind : b.node.isOperand ∧ b.node.isOperation = false ∧ b.node ≠ .lambda := by
    cases b <;> decide
  exact ⟨hshape.bracket span, hkind.1, .of_kind hkind.2.1 hkind.2.2, trivial⟩

/-- A call takes as many arguments as follow, so its function is no open lambda. -/
theorem Shaped.call {p q : Parsed SyntaxTree} (hp : Shaped .calls p) (ho : startsOperand p.rest)
    (hq : Shaped .operand q) (span : Span) (ds : List Diagnostic) :
    Shaped .calls ⟨node .call [] span [p.value, q.value], ds, q.rest⟩ := by
  have hclosed : ¬ p.value.ExposesLambda := fun h => (hp.follows.lambda h).1 ho
  have hlambda : p.value.kind ≠ .lambda := fun h => hclosed ⟨_, .refl, h⟩
  obtain ⟨hexp, hkind⟩ := hp.takes
  constructor
  · rw [wellShaped_node]
    refine ⟨⟨⟨rfl, ⟨hexp, ?_⟩, NodeKind.isOperand_spec hq.takes⟩, ?_⟩, ?_⟩
    · rw [List.mem_cons, not_or]
      exact ⟨hlambda, hkind⟩
    · intro _ c hc
      obtain rfl : c = p.value := by simpa using hc
      exact hclosed
    · simpa using ⟨hp.shape, hq.shape⟩
  · exact ⟨rfl, by simp⟩
  · constructor
    · intro h
      rw [exposesLambda_node] at h
      obtain h | ⟨-, c, hc, h⟩ := h
      · cases h
      · obtain rfl | rfl : c = p.value ∨ c = q.value := by simpa using hc
        · exact absurd h hclosed
        · exact hq.follows.lambda h
    · simp
  · trivial

/-- An operation takes the operators that bind tighter into its right operand, and those that may
stand on its left are there already. -/
theorem Shaped.operation {least : Nat} {p q : Parsed SyntaxTree} {t : Token} {rest : List Token}
    {operator : BinaryOperator} (hp : Shaped (.operations least) p) (hr : p.rest = t :: rest)
    (ht : t.binaryOperator? = some operator) (hl : least ≤ operator.precedence)
    (hq : Shaped (.expression operator.rightLeast) q) (span : Span) (ds : List Diagnostic) :
    Shaped (.operations least) ⟨node .binary t.value span [p.value, q.value], ds, q.rest⟩ := by
  have hlookup := Token.lookup_of_binaryOperator? ht
  have hclosed : ¬ p.value.ExposesLambda := by
    intro h
    have hends := (hp.follows.lambda h).2
    rw [hr, noOperator_cons ht] at hends
    exact absurd (lowestPrecedence_le ht) (Nat.not_le.2 hends)
  have hleft : ∀ inner ∈ p.value.operator?, operator.leftLeast ≤ inner.precedence := by
    intro inner hi
    have hlt := hp.follows.operator inner hi
    rw [hr, noOperator_cons ht] at hlt
    exact (leftLeast_le_iff hlookup (lookup_of_operator? hi)).2 hlt
  constructor
  · rw [wellShaped_node]
    refine ⟨⟨⟨hp.takes.1, hq.takes.1, operator, hlookup, hleft, hq.takes.2⟩, ?_⟩, ?_⟩
    · intro _ c hc
      obtain rfl : c = p.value := by simpa using hc
      exact hclosed
    · simpa using ⟨hp.shape, hq.shape⟩
  · refine ⟨rfl, ?_⟩
    simpa [hlookup] using hl
  · constructor
    · intro h
      rw [exposesLambda_node] at h
      obtain h | ⟨-, c, hc, h⟩ := h
      · cases h
      · obtain rfl | rfl : c = p.value ∨ c = q.value := by simpa using hc
        · exact absurd h hclosed
        · exact hq.follows.lambda h
    · simpa [hlookup] using hq.stops.2
  · exact hq.stops.1

/-- Every part is read as a tree of the right shape, whatever the tokens are. -/
theorem Parses.shaped {depth : Nat} {s : Surroundings} {part : Part} {ts : List Token}
    {p : Parsed SyntaxTree} (h : Parses depth s part ts p) (hs : s.AwaitsClosers) :
    Shaped part p := by
  induction h with
  | @literal _ _ t _ kind ht =>
    have hk : kind = .number ∨ kind = .string ∨ kind = .boolean := by
      cases hk : t.kind <;> rw [hk] at ht <;> cases ht <;> simp
    obtain rfl | rfl | rfl := hk <;>
      exact ⟨wellShaped_leaf (by decide), rfl, .of_kind rfl (by simp), trivial⟩
  | name ht ha => exact ⟨wellShaped_leaf (by decide), rfl, .of_kind rfl (by simp), trivial⟩
  | invalid ht => exact shaped_error rfl trivial
  | lambda ht ha body ih =>
    have hbody := ih hs
    exact ⟨wellShaped_single (by decide) hbody.shape hbody.takes.1, rfl,
      ⟨fun _ => hbody.stops, by simp⟩, trivial⟩
  | closed inside hr ht ih => exact (ih (hs.within _)).bracket _ _ _
  | unclosed inside hr ih => exact (ih (hs.within _)).bracket _ _ _
  | missing ho hsync => exact shaped_error rfl trivial
  | unexpected ho hsync => exact shaped_error rfl trivial
  | group ht body hsync ih =>
    have hbody := ih hs
    refine ⟨?_, ⟨_, _, rfl⟩, .of_kind rfl (by simp), trivial⟩
    rw [wellShaped_node]
    exact ⟨⟨⟨rfl, hbody.takes.1⟩, lambdaLast_of_kind rfl⟩, by simpa using hbody.shape⟩
  | leftover ht body hsync hq ih =>
    have hbody := ih hs
    refine ⟨?_, ⟨_, _, rfl⟩, .of_kind rfl (by simp), trivial⟩
    rw [wellShaped_node, hq]
    refine ⟨⟨⟨rfl, hbody.takes.1, rfl⟩, lambdaLast_of_kind rfl⟩, ?_⟩
    simpa using ⟨hbody.shape, wellShaped_leaf (by decide)⟩
  | product ht =>
    refine ⟨?_, ⟨_, _, rfl⟩, .of_kind rfl (by simp), trivial⟩
    rw [wellShaped_node]
    exact ⟨⟨⟨rfl, by simp⟩, lambdaLast_of_kind rfl⟩, by simp⟩
  | comma before he field hr ht ihb ihf =>
    have hfield := ihf hs
    have hkind : _ ∨ _ := hfield.takes
    exact (ihb hs).adding (by simpa using hfield.shape) (by simpa using hkind)
  | skip before he field hc hsync hr ihb ihf =>
    have hfield := ihf hs
    have hkind : _ ∨ _ := hfield.takes
    rw [hr]
    exact (ihb hs).adding
      (by simpa [Surroundings.recover] using ⟨hfield.shape, wellShaped_leaf (by decide)⟩)
      (by simpa [Surroundings.recover] using hkind)
  | lastField before he field hc hsync ihb ihf =>
    have hfield := ihf hs
    have hkind : _ ∨ _ := hfield.takes
    exact ((ihb hs).adding (by simpa using hfield.shape) (by simpa using hkind)).brace
  | noField before he ih => exact (ih hs).brace
  | field ht hc value ih =>
    have hvalue := ih hs
    exact ⟨wellShaped_single (by decide) hvalue.shape hvalue.takes.1, .inl rfl,
      .of_kind rfl (by simp), trivial⟩
  | notField hn => exact shaped_noField _ _ _
  | function operand ih =>
    obtain ⟨hshape, htakes, hfollows, -⟩ := ih hs
    obtain ⟨hexp, hkind⟩ := NodeKind.isOperand_spec htakes
    exact ⟨hshape, ⟨hexp, fun h => hkind (List.mem_cons_of_mem _ h)⟩, hfollows, trivial⟩
  | call function ho argument ihf iha => exact (ihf hs).call ho (iha hs) _ _
  | application calls ho ih => exact { ih hs with stops := ho }
  | unary application hu ih =>
    obtain ⟨hshape, ⟨hexp, hkind⟩, hfollows, hstops⟩ := ih hs
    exact ⟨hshape, ⟨hexp, fun hk => hkind (by simp [hk])⟩, hfollows, hstops⟩
  | @negate _ _ t _ p ht operand ih =>
    obtain ⟨hshape, ⟨hexp, hkind⟩, hfollows, hstops⟩ := ih hs
    refine ⟨?_, ⟨rfl, by simp [ExpressionParser.negate]⟩, ?_, hstops⟩
    · rw [ExpressionParser.negate, wellShaped_node]
      exact ⟨⟨⟨Token.value_of_isUnaryOperator ht, hexp, hkind⟩, by simp [LambdaLast]⟩,
        by simpa using hshape⟩
    · constructor
      · intro h
        rw [ExpressionParser.negate, exposesLambda_node] at h
        obtain h | ⟨-, c, hc, h⟩ := h
        · cases h
        · obtain rfl : c = p.value := by simpa using hc
          exact hfollows.lambda h
      · simp [ExpressionParser.negate]
  | @first _ _ _ _ p operand ih =>
    obtain ⟨hshape, ⟨hexp, hkind⟩, hfollows, hstops⟩ := ih hs
    exact ⟨hshape, ⟨hexp, by simp [operator?_eq_none hkind]⟩, hfollows, hstops⟩
  | operation left hr ht hl right ihl ihr => exact (ihl hs).operation hr ht hl (ihr hs) _ _
  | expression operations hn ih =>
    obtain ⟨hshape, htakes, hfollows, hstops⟩ := ih hs
    exact ⟨hshape, htakes, hfollows, hstops, hn⟩
  | @tooDeep s least ts =>
    have hstops := hs.stops (s.atSync_skip 0 (s.here ts).start ts)
    exact shaped_error ⟨rfl, by simp⟩ ⟨hstops.not_startsOperand, hstops.noOperator _⟩
  | binding ht hm value ih =>
    have hvalue := ih hs
    exact ⟨wellShaped_single (by decide) hvalue.shape hvalue.takes.1, .inr rfl,
      .of_kind rfl (by simp), trivial⟩
  | bare hn value ih =>
    obtain ⟨hshape, htakes, hfollows, -⟩ := ih hs
    exact ⟨hshape, .inl htakes.1, hfollows, trivial⟩

/-- Statements are expressions, bindings and errors of the right shape. -/
theorem ParsesStatements.shaped {depth : Nat} {s : Surroundings} {ts : List Token}
    {p : Parsed (List SyntaxTree)} (h : ParsesStatements depth s ts p) (hs : s.AwaitsClosers) :
    ∀ t ∈ p.value, t.WellShaped ∧ (t.kind.isExpression ∨ t.kind = .binding) := by
  induction h with
  | nil => simp
  | semicolon ht more ih => exact ih
  | last ht one hr =>
    have hone := one.shaped hs
    simpa using ⟨hone.shape, hone.takes⟩
  | next ht one hr hm more ih =>
    have hone := one.shaped hs
    rw [List.forall_mem_cons]
    exact ⟨⟨hone.shape, hone.takes⟩, ih⟩
  | skip ht one hr hu hskip more ih =>
    have hone := one.shaped hs
    rw [List.forall_mem_cons, List.forall_mem_cons, hskip]
    exact ⟨⟨hone.shape, hone.takes⟩, ⟨wellShaped_leaf (by decide), .inl rfl⟩, ih⟩

namespace Program

/-- Every tree that the parser returns is as the grammar says, however broken the tokens are. -/
theorem grammatical_parse (config : Config) (tokens : List Token) :
    (parse config tokens).tree.Grammatical := by
  have h := (parses_statements config.maxDepth config.maxDepth (ending tokens)
    (significant tokens)).shaped (by simp [Surroundings.AwaitsClosers])
  refine ⟨rfl, ?_⟩
  rw [parse, wellShaped_node]
  exact ⟨⟨⟨rfl, fun t ht => (h t ht).2⟩, lambdaLast_of_kind rfl⟩, fun t ht => (h t ht).1⟩

end Program

end LenSyntax

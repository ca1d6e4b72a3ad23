import LenSyntax.Proofs.Grammar.Rules

/-! Concrete trees: syntax trees in which every node holds its own tokens, in place between its
children. A concrete tree shows which tokens the parser has taken for which node; without its tokens
it is the syntax tree, and its tokens in order are what has been parsed. -/
namespace LenSyntax

inductive ConcreteTree where
  | token (t : Token)
  | node (kind : NodeKind) (text : Text) (span : Span) (parts : List ConcreteTree)

namespace ConcreteTree

/-- Whether a part of a node is a child and no token. -/
def isNode : ConcreteTree → Bool
  | token _ => false
  | node _ _ _ _ => true

mutual

/-- The tokens of a node and of all nodes inside it, in order. -/
def tokens : ConcreteTree → List Token
  | token t => [t]
  | node _ _ _ parts => tokensAll parts

def tokensAll : List ConcreteTree → List Token
  | [] => []
  | c :: cs => c.tokens ++ tokensAll cs

end

mutual

/-- A node without the tokens; a token leaves nothing. -/
def trees : ConcreteTree → List SyntaxTree
  | token _ => []
  | node kind text span parts => [.node kind text span (treesAll parts)]

def treesAll : List ConcreteTree → List SyntaxTree
  | [] => []
  | c :: cs => c.trees ++ treesAll cs

end

mutual

/-- A node and all nodes inside it. -/
def nodes : ConcreteTree → List ConcreteTree
  | token _ => []
  | node kind text span parts => node kind text span parts :: nodesAll parts

def nodesAll : List ConcreteTree → List ConcreteTree
  | [] => []
  | c :: cs => c.nodes ++ nodesAll cs

end

section Parts
variable (cs ds : List ConcreteTree) (ts : List Token)

@[simp] theorem tokensAll_append : tokensAll (cs ++ ds) = tokensAll cs ++ tokensAll ds := by
  induction cs with
  | nil => rfl
  | cons c cs ih => simp [tokensAll, ih]

@[simp] theorem treesAll_append : treesAll (cs ++ ds) = treesAll cs ++ treesAll ds := by
  induction cs with
  | nil => rfl
  | cons c cs ih => simp [treesAll, ih]

@[simp] theorem nodesAll_append : nodesAll (cs ++ ds) = nodesAll cs ++ nodesAll ds := by
  induction cs with
  | nil => rfl
  | cons c cs ih => simp [nodesAll, ih]

@[simp] theorem tokensAll_map_token : tokensAll (ts.map token) = ts := by
  induction ts with
  | nil => rfl
  | cons t ts ih => simp [tokensAll, tokens, ih]

@[simp] theorem treesAll_map_token : treesAll (ts.map token) = [] := by
  induction ts with
  | nil => rfl
  | cons t ts ih => simp [treesAll, trees, ih]

@[simp] theorem nodesAll_map_token : nodesAll (ts.map token) = [] := by
  induction ts with
  | nil => rfl
  | cons t ts ih => simp [nodesAll, nodes, ih]

end Parts

theorem isNode_of_trees {c : ConcreteTree} {t : SyntaxTree} (h : c.trees = [t]) : c.isNode := by
  cases c with
  | token t => simp [trees] at h
  | node kind text span parts => rfl

theorem token_ne_of_isNode {c : ConcreteTree} (h : c.isNode) (t : Token) : token t ≠ c := by
  rintro rfl
  cases h

/-- What stands behind the opener of a bracket and in front of its closer: one expression, or fields
and commas. Only in broken brackets something stands behind the expression. -/
inductive Inside (broken : Prop) : Bracket → List ConcreteTree → Prop
  | expression {c} (hc : c.isNode) : Inside broken .paren [c]
  | leftover {c d} (hb : broken) (hc : c.isNode) (hd : d.isNode) : Inside broken .paren [c, d]
  | fields {parts} (h : ∀ t, token t ∈ parts → t.kind = .comma) : Inside broken .brace parts

/-- More fields and commas may stand behind those in a product. -/
theorem Inside.append {broken : Prop} {parts more : List ConcreteTree}
    (h : Inside broken .brace parts) (hm : ∀ t, token t ∈ more → t.kind = .comma) :
    Inside broken .brace (parts ++ more) := by
  cases h with
  | fields h =>
    refine .fields fun t ht => ?_
    obtain ht | ht := List.mem_append.1 ht
    · exact h t ht
    · exact hm t ht

/-- The marks behind the names of the nodes that have both. -/
def marks : List (NodeKind × TokenKind) :=
  [(.lambda, .arrow), (.binding, .bind), (.field, .colon)]

/-- How the tokens of a node stand between its children. An error node may hold any tokens, and a
bracket lacks its closer only if it is broken. -/
inductive LaidOut (broken : Prop) : ConcreteTree → Prop
  | literal {kind t} (ht : t.kind.literal? = some kind) :
      LaidOut broken (node kind t.value t.span [token t])
  | name {t} (ht : t.kind = .identifier) :
      LaidOut broken (node .identifier t.value t.span [token t])
  | error {text span} (ts : List Token) : LaidOut broken (node .error text span (ts.map token))
  | named {kind mark t m span c} (hk : (kind, mark) ∈ marks) (ht : t.kind = .identifier)
      (hm : m.kind = mark) (hc : c.isNode) :
      LaidOut broken (node kind t.value span [token t, token m, c])
  | unary {t span c} (ht : t.isUnaryOperator) (hc : c.isNode) :
      LaidOut broken (node .unary t.value span [token t, c])
  | binary {c t d span} (hc : c.isNode) (ht : t.binaryOperator?.isSome) (hd : d.isNode) :
      LaidOut broken (node .binary t.value span [c, token t, d])
  | call {c d span} (hc : c.isNode) (hd : d.isNode) :
      LaidOut broken (node .call [] span [c, d])
  | closed {b o parts c} (ho : o.kind = b.opener) (hi : Inside broken b parts)
      (hc : c.kind = b.closer) :
      LaidOut broken (node b.node [] ⟨o.span.start, c.span.stop⟩ (token o :: parts ++ [token c]))
  | unclosed {b o parts stop} (hb : broken) (ho : o.kind = b.opener) (hi : Inside broken b parts) :
      LaidOut broken (node b.node [] ⟨o.span.start, stop⟩ (token o :: parts))
  | program {span parts} (h : ∀ t, token t ∈ parts → t.kind = .semicolon) :
      LaidOut broken (node .program [] span parts)

end ConcreteTree

end LenSyntax

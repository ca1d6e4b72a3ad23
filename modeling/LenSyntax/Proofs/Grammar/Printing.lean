import LenSyntax.Proofs.Grammar.Rules
import LenSyntax.Proofs.Tree.Nodes

/-! Printing of trees. The tokens of a tree stand in the order of its nodes; only the separators
leave a choice, for a semicolon may stand alone and a comma may follow the last field. -/
namespace LenSyntax

/-- Whether the child at a place below a node is an expression that counts as nested in it. -/
def NodeKind.nests : NodeKind → (place : Nat) → Bool
  | group, 0 | lambda, 0 | field, 0 | binary, 1 => true
  | _, _ => false

namespace SyntaxTree

mutual

/-- The largest number of nested expressions on a path from the root of a tree to a leaf. -/
def nesting : SyntaxTree → Nat
  | node kind _ _ children => nestingFrom kind 0 children

/-- The same for the children of a node from a place on, the step from the node included. -/
def nestingFrom (kind : NodeKind) (place : Nat) : List SyntaxTree → Nat
  | [] => 0
  | t :: ts =>
    max (t.nesting + if kind.nests place then 1 else 0) (nestingFrom kind (place + 1) ts)

end

mutual

/-- A tree whose nodes have forgotten where they stand. -/
def unplaced : SyntaxTree → SyntaxTree
  | node kind text _ children => node kind text default (unplacedAll children)

def unplacedAll : List SyntaxTree → List SyntaxTree
  | [] => []
  | t :: ts => t.unplaced :: unplacedAll ts

end

@[simp] theorem unplaced_node (kind : NodeKind) (text : Text) (span : Span)
    (children : List SyntaxTree) :
    (node kind text span children).unplaced = node kind text default (children.map unplaced) := by
  have hall : ∀ ts : List SyntaxTree, unplacedAll ts = ts.map unplaced := by
    intro ts
    induction ts with
    | nil => rfl
    | cons t ts ih => rw [unplacedAll, ih, List.map_cons]
  rw [unplaced, hall]

theorem nesting_le_nestingFrom {t : SyntaxTree} {ts : List SyntaxTree} {i : Nat}
    (ht : ts[i]? = some t) (kind : NodeKind) (place : Nat) :
    (t.nesting + if kind.nests (place + i) then 1 else 0) ≤ nestingFrom kind place ts := by
  induction ts generalizing i place with
  | nil => simp at ht
  | cons u ts ih =>
    rw [nestingFrom]
    cases i with
    | zero =>
      obtain rfl : u = t := by simpa using ht
      exact Nat.le_max_left _ _
    | succ i =>
      have hle := ih (i := i) (by simpa using ht) (place + 1)
      rw [Nat.add_right_comm] at hle
      exact Nat.le_trans hle (Nat.le_max_right _ _)

/-- A child that counts as nested is nested less deeply than its parent. -/
theorem nesting_le_node {t : SyntaxTree} {children : List SyntaxTree} {i : Nat}
    (ht : children[i]? = some t) (kind : NodeKind) (text : Text) (span : Span) :
    (t.nesting + if kind.nests i then 1 else 0) ≤ (node kind text span children).nesting := by
  rw [nesting]
  simpa using nesting_le_nestingFrom ht kind 0

end SyntaxTree

open SyntaxTree

/-- What tokens print. -/
inductive Printed where
  | expression (t : SyntaxTree)
  | field (t : SyntaxTree)
  | fields (ts : List SyntaxTree)
  | statement (t : SyntaxTree)
  | statements (ts : List SyntaxTree)

/-- `Prints x w`: the kinds and values of the tokens `w` spell `x` in order. An error node is
spelled by the malformed token that it stands for; what the parser has skipped or missed is not
printed. -/
inductive Prints : Printed → List Token → Prop
  | literal {kind span t} (ht : t.kind.literal? = some kind) :
      Prints (.expression (node kind t.value span [])) [t]
  | name {span t} (ht : t.kind = .identifier) :
      Prints (.expression (node .identifier t.value span [])) [t]
  | invalid {span t} (ht : t.kind = .error) :
      Prints (.expression (node .error (SyntaxFault.invalidToken t.raw).message span [])) [t]
  | lambda {span t arrow body w} (ht : t.kind = .identifier) (ha : arrow.kind = .arrow)
      (inner : Prints (.expression body) w) :
      Prints (.expression (node .lambda t.value span [body])) (t :: arrow :: w)
  | group {text span o c inner w} (ho : o.kind = .openParen)
      (body : Prints (.expression inner) w) (hc : c.kind = .closeParen) :
      Prints (.expression (node .group text span [inner])) (o :: (w ++ [c]))
  | product {text span o c children w} (ho : o.kind = .openBrace)
      (inner : Prints (.fields children) w) (hc : c.kind = .closeBrace) :
      Prints (.expression (node .product text span children)) (o :: (w ++ [c]))
  | call {text span function argument w v} (left : Prints (.expression function) w)
      (right : Prints (.expression argument) v) :
      Prints (.expression (node .call text span [function, argument])) (w ++ v)
  | unary {span t operand w} (ht : t.kind = .symbol) (inner : Prints (.expression operand) w) :
      Prints (.expression (node .unary t.value span [operand])) (t :: w)
  | binary {span left t right w v} (before : Prints (.expression left) w) (ht : t.kind = .symbol)
      (behind : Prints (.expression right) v) :
      Prints (.expression (node .binary t.value span [left, right])) (w ++ t :: v)
  | field {span t colon value w} (ht : t.kind = .identifier) (hc : colon.kind = .colon)
      (inner : Prints (.expression value) w) :
      Prints (.field (node .field t.value span [value])) (t :: colon :: w)
  | noField : Prints (.fields []) []
  | lastField {t w} (last : Prints (.field t) w) : Prints (.fields [t]) w
  | comma {t w c ts v} (first : Prints (.field t) w) (hc : c.kind = .comma)
      (more : Prints (.fields ts) v) : Prints (.fields (t :: ts)) (w ++ c :: v)
  | binding {span t mark value w} (ht : t.kind = .identifier) (hm : mark.kind = .bind)
      (inner : Prints (.expression value) w) :
      Prints (.statement (node .binding t.value span [value])) (t :: mark :: w)
  | bare {t w} (value : Prints (.expression t) w) : Prints (.statement t) w
  | noStatement : Prints (.statements []) []
  | semicolon {ts m w} (hm : m.kind = .semicolon) (more : Prints (.statements ts) w) :
      Prints (.statements ts) (m :: w)
  | lastStatement {t w} (last : Prints (.statement t) w) : Prints (.statements [t]) w
  | next {t w m ts v} (first : Prints (.statement t) w) (hm : m.kind = .semicolon)
      (more : Prints (.statements ts) v) : Prints (.statements (t :: ts)) (w ++ m :: v)

end LenSyntax

import LenSyntax.Arena.Basic

/-! The arena of a syntax tree: its nodes in post-order, so that the children of a node stand in
front of it and the root comes last. -/
namespace LenSyntax

namespace SyntaxTree

mutual

/-- Appends the nodes of a tree in post-order; its root comes last. -/
def appendTo (nodes : Array ArenaNode) : SyntaxTree → Array ArenaNode
  | node kind text span children =>
    let below := appendAllTo nodes [] children
    below.1.push ⟨kind, text, span, below.2.reverse⟩

/-- Appends the nodes of several trees and tells the indices of their roots, latest first, in front
of the given ones. -/
def appendAllTo (nodes : Array ArenaNode) (roots : List Nat) :
    List SyntaxTree → Array ArenaNode × List Nat
  | [] => (nodes, roots)
  | t :: ts =>
    let nodes := t.appendTo nodes
    appendAllTo nodes ((nodes.size - 1) :: roots) ts

end

/-- Every child stands in front of its parent. -/
def Ordered (nodes : Array ArenaNode) : Prop :=
  ∀ i (h : i < nodes.size), ∀ child ∈ nodes[i].children, child < i

theorem Ordered.push {nodes : Array ArenaNode} (h : Ordered nodes) {n : ArenaNode}
    (hn : ∀ child ∈ n.children, child < nodes.size) : Ordered (nodes.push n) :=
  (Arena.push ⟨nodes, 0, h⟩ n hn).ordered

mutual

theorem ordered_appendTo {nodes : Array ArenaNode} (h : Ordered nodes) :
    (t : SyntaxTree) → Ordered (t.appendTo nodes) ∧ nodes.size < (t.appendTo nodes).size
  | node kind text span children => by
    have ⟨h1, h2, h3⟩ := ordered_appendAllTo h [] (by simp) children
    simp only [appendTo]
    exact ⟨h1.push (by simpa using h3), by simp only [Array.size_push]; omega⟩

theorem ordered_appendAllTo {nodes : Array ArenaNode} (h : Ordered nodes) (roots : List Nat)
    (hr : ∀ r ∈ roots, r < nodes.size) :
    (ts : List SyntaxTree) → Ordered (appendAllTo nodes roots ts).1 ∧
      nodes.size ≤ (appendAllTo nodes roots ts).1.size ∧
      ∀ r ∈ (appendAllTo nodes roots ts).2, r < (appendAllTo nodes roots ts).1.size
  | [] => by simpa [appendAllTo, h] using hr
  | t :: ts => by
    have ⟨h1, h2⟩ := ordered_appendTo h t
    have ⟨h3, h4, h5⟩ := ordered_appendAllTo h1 (((t.appendTo nodes).size - 1) :: roots)
      (by
        intro r hm
        rcases List.mem_cons.1 hm with rfl | hm
        · omega
        · have := hr r hm; omega) ts
    simp only [appendAllTo]
    exact ⟨h3, by omega, h5⟩

end

/-- The arena of a tree. -/
def arena (t : SyntaxTree) : Arena where
  nodes := t.appendTo #[]
  root := (t.appendTo #[]).size - 1
  ordered := (ordered_appendTo (by simp [Ordered]) t).1

end SyntaxTree
end LenSyntax

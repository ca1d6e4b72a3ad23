import LenSyntax.Arena.OfTree
import LenSyntax.Proofs.Arena.Traversal

/-! The arena of a tree is its post-order: index by index it holds the nodes as the traversal in
post-order meets them, so that no node is lost, doubled or out of place. -/
namespace LenSyntax

namespace SyntaxTree

/-- The indices of the roots of trees that stand one behind the other from `base` on. -/
def roots (base : Nat) : List SyntaxTree → List Nat
  | [] => []
  | t :: ts => (base + t.size - 1) :: roots (base + t.size) ts

mutual

/-- The nodes of a tree in post-order, the first of them at `base`. -/
def placed (base : Nat) : SyntaxTree → List ArenaNode
  | node kind text span children =>
    placedAll base children ++ [⟨kind, text, span, roots base children⟩]

def placedAll (base : Nat) : List SyntaxTree → List ArenaNode
  | [] => []
  | t :: ts => t.placed base ++ placedAll (base + t.size) ts

end

theorem size_pos (t : SyntaxTree) : 0 < t.size := by
  obtain ⟨kind, text, span, children⟩ := t
  rw [size]
  exact Nat.succ_pos _

mutual

theorem placed_length (base : Nat) : (t : SyntaxTree) → (t.placed base).length = t.size
  | node kind text span children => by
    rw [placed, List.length_append, placedAll_length base children, size]
    rfl

theorem placedAll_length (base : Nat) :
    (ts : List SyntaxTree) → (placedAll base ts).length = sizeAll ts
  | [] => rfl
  | t :: ts => by
    rw [placedAll, List.length_append, placed_length base t, placedAll_length _ ts, sizeAll]

end

mutual

/-- A tree is appended as it stands in post-order. -/
theorem toList_appendTo (nodes : Array ArenaNode) :
    (t : SyntaxTree) → (t.appendTo nodes).toList = nodes.toList ++ t.placed nodes.size
  | node kind text span children => by
    have ⟨hnodes, hroots⟩ := toList_appendAllTo nodes [] children
    rw [appendTo, Array.toList_push, hnodes, hroots, placed]
    simp

theorem toList_appendAllTo (nodes : Array ArenaNode) (rs : List Nat) :
    (ts : List SyntaxTree) →
      (appendAllTo nodes rs ts).1.toList = nodes.toList ++ placedAll nodes.size ts ∧
        (appendAllTo nodes rs ts).2 = (roots nodes.size ts).reverse ++ rs
  | [] => by simp [appendAllTo, placedAll, roots]
  | t :: ts => by
    have hone := toList_appendTo nodes t
    have hsize : (t.appendTo nodes).size = nodes.size + t.size := by
      rw [← Array.length_toList, hone, List.length_append, placed_length, Array.length_toList]
    have ⟨hnodes, hroots⟩ :=
      toList_appendAllTo (t.appendTo nodes) (((t.appendTo nodes).size - 1) :: rs) ts
    rw [appendAllTo, hnodes, hroots, hone, hsize, placedAll, roots]
    simp

end

/-- Where the nodes of a tree stand in an arena, the root stands behind all below it. -/
theorem getElem?_placed (a : Arena) {base : Nat} (before behind : List ArenaNode)
    (hbase : before.length = base) {kind : NodeKind} {text : Text} {span : Span}
    {children : List SyntaxTree}
    (ha : a.nodes.toList = before ++ (node kind text span children).placed base ++ behind) :
    a.nodes[base + sizeAll children]? = some ⟨kind, text, span, roots base children⟩ := by
  have hlength : (before ++ placedAll base children).length = base + sizeAll children := by
    rw [List.length_append, placedAll_length, hbase]
  rw [placed, ← List.append_assoc] at ha
  rw [← Array.getElem?_toList, ha, List.append_assoc, ← hlength,
    List.getElem?_append_right (Nat.le_refl _), Nat.sub_self]
  rfl

mutual

/-- Where the nodes of a tree stand in an arena, the traversal in post-order meets them in a row. -/
theorem postOrder_placed (a : Arena) {base : Nat} (before behind : List ArenaNode)
    (hbase : before.length = base) :
    (t : SyntaxTree) → a.nodes.toList = before ++ t.placed base ++ behind →
      a.postOrder (base + t.size - 1) = List.range' base t.size
  | node kind text span children, ha => by
    obtain ⟨hlt, hnode⟩ := Array.getElem?_eq_some_iff.1 (getElem?_placed a before behind hbase ha)
    rw [placed, ← List.append_assoc, List.append_assoc, List.append_assoc] at ha
    have hbelow := flatMap_postOrder_roots a _ _ hbase children
      (ha.trans (List.append_assoc _ _ _).symm)
    rw [size, show base + (sizeAll children + 1) - 1 = base + sizeAll children by omega,
      Arena.postOrder_eq hlt, hnode, hbelow, List.range'_1_concat]

theorem flatMap_postOrder_roots (a : Arena) {base : Nat} (before behind : List ArenaNode)
    (hbase : before.length = base) :
    (ts : List SyntaxTree) → a.nodes.toList = before ++ placedAll base ts ++ behind →
      (roots base ts).flatMap a.postOrder = List.range' base (sizeAll ts)
  | [], _ => rfl
  | t :: ts, ha => by
    rw [placedAll] at ha
    have hone := postOrder_placed a before (placedAll (base + t.size) ts ++ behind) hbase t
      (by rw [ha]; simp)
    have hnext : (before ++ t.placed base).length = base + t.size := by
      rw [List.length_append, placed_length, hbase]
    have hmore := flatMap_postOrder_roots a (before ++ t.placed base) behind hnext ts
      (by rw [ha]; simp)
    rw [roots, List.flatMap_cons, hone, hmore, sizeAll, List.range'_append_1]

end

theorem toList_nodes_arena (t : SyntaxTree) : t.arena.nodes.toList = t.placed 0 :=
  toList_appendTo #[] t

theorem size_arena (t : SyntaxTree) : t.arena.size = t.size := by
  rw [Arena.size, ← Array.length_toList, toList_nodes_arena, placed_length]

theorem root_arena (t : SyntaxTree) : t.arena.root = (t.size - 1 : Nat) := by
  have hsize : (t.appendTo #[]).size = t.size := size_arena t
  have hpos := t.size_pos
  change ((t.appendTo #[]).size : Int) - 1 = _
  omega

/-- From the root of an arena the traversal in post-order meets the nodes in the order of their
indices. -/
theorem postOrder_arena (t : SyntaxTree) :
    t.arena.postOrder (t.size - 1) = List.range t.size := by
  have h := postOrder_placed t.arena [] [] rfl t (by rw [toList_nodes_arena]; simp)
  rwa [List.length_nil, Nat.zero_add, ← List.range_eq_range'] at h

/-- The root of an arena comes last; any other node is a child of just one node, and once; by index
the nodes stand as the traversal from the root meets them, so the walk visits each of them once, and
at its index. -/
theorem postOrdered_arena (t : SyntaxTree) :
    (0 < t.arena.size ∧ t.arena.root = t.arena.size - 1) ∧
      (∀ i, i + 1 < t.arena.size → ∃ parent < t.arena.size,
        (t.arena.children parent).count i = 1 ∧
          ∀ other, other ≠ parent → i ∉ t.arena.children other) ∧
      t.arena.postOrder t.arena.root.toNat = List.range t.arena.size ∧
      ∃ visits, t.arena.walk? = some visits ∧
        (visits.map (·.index)).Perm (List.range t.arena.size) ∧
        ∀ v ∈ visits, t.arena.node? v.index = some v.node := by
  have hpos := t.size_pos
  have hsize : t.arena.size = t.size := t.size_arena
  have hroot : t.arena.root = (t.size - 1 : Nat) := t.root_arena
  have hpost : t.arena.postOrder (t.size - 1) = List.range t.arena.size := by
    rw [hsize]
    exact t.postOrder_arena
  have hlt : t.size - 1 < t.arena.size := by omega
  refine ⟨⟨by omega, by omega⟩, ?_, by rw [hroot, Int.toNat_natCast, hpost], ?_⟩
  · intro i hi
    exact Arena.exists_parent hlt (hpost ▸ List.Perm.refl _) (by omega) (by omega)
  · refine ⟨t.arena.preOrder 0 (t.size - 1), ?_, ?_, t.arena.node?_of_mem_preOrder _ _⟩
    · rw [Arena.walk?, hroot, Arena.walkFrom?_eq_preOrder hlt]
    · rw [← hpost]
      exact t.arena.map_index_preOrder_perm _ _

end SyntaxTree

end LenSyntax

import LenSyntax.Proofs.Tree.Nodes
import LenSyntax.Proofs.Tree.Spans

/-! The rows of a tree: its nodes as a walk meets them, each with its depth and without its
children. A tree can be read back from them, for the nodes below a node are those behind it that
stand deeper. -/
namespace LenSyntax

structure Row where
  depth : Nat
  kind : NodeKind
  text : Text
  span : Span

/-- What is met on a walk, apart from indices. -/
def Visit.row (v : Visit) : Row := ⟨v.depth, v.node.kind, v.node.text, v.node.span⟩

namespace SyntaxTree

mutual

/-- The rows of a tree whose root stands at a depth. -/
def rows (depth : Nat) : SyntaxTree → List Row
  | node kind text span children => ⟨depth, kind, text, span⟩ :: rowsAll (depth + 1) children

def rowsAll (depth : Nat) : List SyntaxTree → List Row
  | [] => []
  | t :: ts => t.rows depth ++ rowsAll depth ts

end

section Walk

mutual

/-- Where the nodes of a tree stand in an arena, the traversal in pre-order meets its rows. -/
theorem preOrder_placed (a : Arena) {base : Nat} (before behind : List ArenaNode)
    (hbase : before.length = base) (depth : Nat) :
    (t : SyntaxTree) → a.nodes.toList = before ++ t.placed base ++ behind →
      (a.preOrder depth (base + t.size - 1)).map (·.row) = t.rows depth
  | node kind text span children, ha => by
    obtain ⟨hlt, hnode⟩ := Array.getElem?_eq_some_iff.1 (getElem?_placed a before behind hbase ha)
    rw [placed, ← List.append_assoc, List.append_assoc, List.append_assoc] at ha
    have hbelow := flatMap_preOrder_roots a before _ hbase (depth + 1) children
      (ha.trans (List.append_assoc _ _ _).symm)
    rw [size, show base + (sizeAll children + 1) - 1 = base + sizeAll children by omega,
      Arena.preOrder_eq hlt, hnode, List.map_cons, hbelow]
    rfl

theorem flatMap_preOrder_roots (a : Arena) {base : Nat} (before behind : List ArenaNode)
    (hbase : before.length = base) (depth : Nat) :
    (ts : List SyntaxTree) → a.nodes.toList = before ++ placedAll base ts ++ behind →
      ((roots base ts).flatMap (a.preOrder depth)).map (·.row) = rowsAll depth ts
  | [], _ => rfl
  | t :: ts, ha => by
    rw [placedAll] at ha
    have hone := preOrder_placed a before (placedAll (base + t.size) ts ++ behind) hbase depth t
      (by rw [ha]; simp)
    have hnext : (before ++ t.placed base).length = base + t.size := by
      rw [List.length_append, placed_length, hbase]
    have hmore := flatMap_preOrder_roots a (before ++ t.placed base) behind hnext depth ts
      (by rw [ha]; simp)
    rw [roots, List.flatMap_cons, List.map_append, hone, hmore, rowsAll]

end

theorem walk?_eq_preOrder (t : SyntaxTree) :
    t.arena.walk? = some (t.arena.preOrder 0 (t.size - 1)) := by
  have hlt : t.size - 1 < t.arena.size := by
    have := t.size_pos
    rw [size_arena]
    omega
  rw [Arena.walk?, root_arena, Arena.walkFrom?_eq_preOrder hlt]

/-- The walk of an arena meets every node once. -/
theorem perm_walk?_arena {t : SyntaxTree} {visits : List Visit}
    (h : t.arena.walk? = some visits) :
    (visits.map (·.index)).Perm (List.range t.arena.size) := by
  rw [walk?_eq_preOrder, Option.some_inj] at h
  rw [← h, size_arena, ← postOrder_arena]
  exact t.arena.map_index_preOrder_perm _ _

/-- The walk of an arena meets the rows of its tree. -/
theorem walk?_arena (t : SyntaxTree) :
    ∃ visits, t.arena.walk? = some visits ∧ visits.map (·.row) = t.rows 0 := by
  refine ⟨_, t.walk?_eq_preOrder, ?_⟩
  have h := preOrder_placed t.arena [] [] rfl 0 t (by rw [toList_nodes_arena]; simp)
  rwa [List.length_nil, Nat.zero_add] at h

end Walk

section Reading

theorem head?_rowsAll_append {depth : Nat} {rest : List Row} (ts : List SyntaxTree)
    (h : ∀ r ∈ rest.head?, r.depth < depth) :
    ∀ r ∈ (rowsAll depth ts ++ rest).head?, r.depth ≤ depth := by
  cases ts with
  | nil => exact fun r hr => Nat.le_of_lt (h r hr)
  | cons t ts =>
    obtain ⟨kind, text, span, children⟩ := t
    intro r hr
    obtain rfl : ⟨depth, kind, text, span⟩ = r := Option.some.inj hr
    exact Nat.le_refl depth

mutual

/-- The rows of a tree end in front of one that stands no deeper than its root. -/
theorem rows_append_inj {depth : Nat} {x y : List Row} (hx : ∀ r ∈ x.head?, r.depth ≤ depth)
    (hy : ∀ r ∈ y.head?, r.depth ≤ depth) :
    (t u : SyntaxTree) → t.rows depth ++ x = u.rows depth ++ y → t = u ∧ x = y
  | node _ _ _ cs, node _ _ _ ds, h => by
    obtain ⟨hroot, hbelow⟩ := List.cons.inj h
    obtain ⟨rfl, hrest⟩ := rowsAll_append_inj (fun r hr => Nat.lt_succ_of_le (hx r hr))
      (fun r hr => Nat.lt_succ_of_le (hy r hr)) cs ds hbelow
    obtain ⟨-, rfl, rfl, rfl⟩ := Row.mk.inj hroot
    exact ⟨rfl, hrest⟩

theorem rowsAll_append_inj {depth : Nat} {x y : List Row} (hx : ∀ r ∈ x.head?, r.depth < depth)
    (hy : ∀ r ∈ y.head?, r.depth < depth) :
    (ts us : List SyntaxTree) → rowsAll depth ts ++ x = rowsAll depth us ++ y → ts = us ∧ x = y
  | [], [], h => ⟨rfl, h⟩
  | [], node _ _ _ _ :: _, h => by
    rw [show x = _ from h] at hx
    exact absurd (hx _ rfl) (Nat.lt_irrefl depth)
  | node _ _ _ _ :: _, [], h => by
    rw [show y = _ from h.symm] at hy
    exact absurd (hy _ rfl) (Nat.lt_irrefl depth)
  | t :: ts, u :: us, h => by
    rw [rowsAll, rowsAll, List.append_assoc, List.append_assoc] at h
    obtain ⟨rfl, hmore⟩ := rows_append_inj (head?_rowsAll_append ts hx)
      (head?_rowsAll_append us hy) t u h
    obtain ⟨rfl, hrest⟩ := rowsAll_append_inj hx hy ts us hmore
    exact ⟨rfl, hrest⟩

end

/-- Depths and nodes in the order of a walk make out the tree. -/
theorem rows_injective (depth : Nat) : Function.Injective (rows depth) := by
  intro t u h
  exact (rows_append_inj (x := []) (y := []) (by simp) (by simp) t u (by rw [h])).1

end Reading

mutual

theorem rows_respan (f : Span → Span) (depth : Nat) : (t : SyntaxTree) →
    (t.respan f).rows depth = (t.rows depth).map fun r => { r with span := f r.span }
  | node kind text span children => by
    rw [respan, rows, rows, rowsAll_respanAll f (depth + 1) children, List.map_cons]

theorem rowsAll_respanAll (f : Span → Span) (depth : Nat) : (ts : List SyntaxTree) →
    rowsAll depth (respanAll f ts) = (rowsAll depth ts).map fun r => { r with span := f r.span }
  | [] => rfl
  | t :: ts => by
    rw [respanAll, rowsAll, rowsAll, rows_respan f depth t, rowsAll_respanAll f depth ts,
      List.map_append]

end

mutual

theorem exists_node_of_mem_rows {r : Row} {depth : Nat} : (t : SyntaxTree) → r ∈ t.rows depth →
    ∃ n ∈ t.nodes, n.kind = r.kind ∧ n.text = r.text
  | node kind text span children, h => by
    obtain rfl | h := List.mem_cons.1 h
    · exact ⟨_, List.mem_cons_self, rfl, rfl⟩
    · obtain ⟨n, hn, hr⟩ := exists_node_of_mem_rowsAll children h
      exact ⟨n, List.mem_cons_of_mem _ hn, hr⟩

theorem exists_node_of_mem_rowsAll {r : Row} {depth : Nat} :
    (ts : List SyntaxTree) → r ∈ rowsAll depth ts →
      ∃ n ∈ nodesAll ts, n.kind = r.kind ∧ n.text = r.text
  | t :: ts, h => by
    obtain h | h := List.mem_append.1 h
    · obtain ⟨n, hn, hr⟩ := exists_node_of_mem_rows t h
      exact ⟨n, List.mem_append_left _ hn, hr⟩
    · obtain ⟨n, hn, hr⟩ := exists_node_of_mem_rowsAll ts h
      exact ⟨n, List.mem_append_right _ hn, hr⟩

end

end SyntaxTree

end LenSyntax

import Mathlib.Data.List.Nodup
import Mathlib.Data.List.Perm.Basic
import LenSyntax.Arena.Walk

/-! Traversals of an arena by recursion. A walk with a stack is the traversal in pre-order; it meets
the same nodes as the traversal in post-order, and each as often. -/
namespace LenSyntax.Arena
variable (a : Arena)

/-- The visits of a node and of all below it, the node in front. -/
def preOrder (depth index : Nat) : List Visit :=
  if h : index < a.nodes.size then
    ⟨depth, index, a.nodes[index]⟩ ::
      a.nodes[index].children.attach.flatMap fun child =>
        have := a.ordered index h child.1 child.2
        preOrder (depth + 1) child.1
  else []
  termination_by index

/-- The indices of a node and of all below it, the node behind. -/
def postOrder (index : Nat) : List Nat :=
  if h : index < a.nodes.size then
    (a.nodes[index].children.attach.flatMap fun child =>
      have := a.ordered index h child.1 child.2
      postOrder child.1) ++ [index]
  else []
  termination_by index

variable {a} {index : Nat}

theorem node?_natCast (a : Arena) (index : Nat) : a.node? index = a.nodes[index]? := by
  rw [node?, if_neg (by omega), Int.toNat_natCast]

theorem preOrder_eq (h : index < a.nodes.size) (depth : Nat) :
    a.preOrder depth index = ⟨depth, index, a.nodes[index]⟩ ::
      a.nodes[index].children.flatMap (a.preOrder (depth + 1)) := by
  rw [preOrder, dif_pos h]
  simp only [List.flatMap_subtype, List.unattach_attach]

theorem postOrder_eq (h : index < a.nodes.size) :
    a.postOrder index = a.nodes[index].children.flatMap a.postOrder ++ [index] := by
  rw [postOrder, dif_pos h]
  simp only [List.flatMap_subtype, List.unattach_attach]

theorem preOrder_eq_nil (h : ¬ index < a.nodes.size) (depth : Nat) :
    a.preOrder depth index = [] := by rw [preOrder, dif_neg h]

theorem postOrder_eq_nil (h : ¬ index < a.nodes.size) : a.postOrder index = [] := by
  rw [postOrder, dif_neg h]

/-- A stack is worked off from its top, each entry with all below it. -/
theorem toList_walkStack (met : Array Visit) (stack : List (Nat × Nat)) :
    (a.walkStack met stack).toList =
      met.toList ++ stack.flatMap fun entry => a.preOrder entry.1 entry.2 := by
  fun_induction walkStack a met stack with
  | case1 met => simp
  | case2 met depth index stack h ih =>
    rw [ih, List.flatMap_append, List.flatMap_map, List.flatMap_cons, preOrder_eq h]
    simp
  | case3 met depth index stack h ih =>
    rw [ih, List.flatMap_cons, preOrder_eq_nil h, List.nil_append]

/-- The walk from a node is the traversal in pre-order. -/
theorem walkFrom?_eq_preOrder (h : index < a.size) :
    a.walkFrom? index = some (a.preOrder 0 index) := by
  have hneg : ¬ (index : Int) < 0 := by omega
  have hlt : (index : Int) < a.size := by omega
  rw [walkFrom?, if_neg hneg, if_pos hlt, toList_walkStack]
  simp

/-- The children of a node; there are none past the end. -/
def children (a : Arena) (index : Nat) : List Nat := (a.nodes[index]?.map (·.children)).getD []

theorem children_eq (h : index < a.nodes.size) : a.children index = a.nodes[index].children := by
  rw [children, Array.getElem?_eq_getElem h]
  rfl

/-- Below a node, all but the node itself are met as children of another. -/
theorem flatMap_children_postOrder_perm (h : index < a.nodes.size) :
    ((a.postOrder index).flatMap a.children ++ [index]).Perm (a.postOrder index) := by
  induction index using Nat.strongRecOn with
  | ind index ih =>
    rw [postOrder_eq h, List.flatMap_append, List.flatMap_singleton, children_eq h,
      List.flatMap_assoc]
    apply List.Perm.append_right
    have hchild : ∀ child ∈ a.nodes[index].children,
        ((a.postOrder child).flatMap a.children ++ [child]).Perm (a.postOrder child) := by
      intro child hc
      have hlt := a.ordered index h child hc
      exact ih child hlt (Nat.lt_trans hlt h)
    have hsplit := List.flatMap_append_perm a.nodes[index].children
      (fun child => (a.postOrder child).flatMap a.children) (fun child => [child])
    rw [List.flatMap_singleton'] at hsplit
    exact hsplit.trans (List.Perm.flatMap_left _ hchild)

theorem lt_of_mem_children {child parent : Nat} (h : child ∈ a.children parent) :
    parent < a.size := by
  by_contra hlt
  have hnone : a.nodes[parent]? = none := Array.getElem?_eq_none (by simpa [size] using hlt)
  simp [children, hnone] at h

/-- If a traversal meets all nodes once each, any but the first is a child of just one node, and
stands once among its children. -/
theorem exists_parent {root i : Nat} (hroot : root < a.size)
    (hall : (a.postOrder root).Perm (List.range a.size)) (hi : i < a.size) (hne : i ≠ root) :
    ∃ parent < a.size, (a.children parent).count i = 1 ∧
      ∀ other, other ≠ parent → i ∉ a.children other := by
  have honce : ((List.range a.size).flatMap a.children).count i = 1 := by
    have hcount := ((flatMap_children_postOrder_perm hroot).trans hall).count_eq i
    rw [List.count_append, (hall.flatMap_right a.children).count_eq i,
      List.count_singleton, if_neg (by simpa using hne.symm), Nat.add_zero] at hcount
    rw [hcount]
    exact List.count_eq_one_of_mem List.nodup_range (List.mem_range.2 hi)
  obtain ⟨parent, hparent, hmem⟩ := List.mem_flatMap.1 (List.count_pos_iff.1 (honce ▸ Nat.one_pos))
  obtain ⟨before, behind, hrange⟩ := List.append_of_mem hparent
  rw [hrange, List.flatMap_append, List.flatMap_cons, List.count_append, List.count_append] at honce
  have hpos := List.count_pos_iff.2 hmem
  refine ⟨parent, List.mem_range.1 hparent, by omega, ?_⟩
  intro other hother hchild
  have hmem' : other ∈ before ++ parent :: behind :=
    hrange ▸ List.mem_range.2 (lt_of_mem_children hchild)
  have hcounted {others : List Nat} (h : other ∈ others) :
      0 < (others.flatMap a.children).count i :=
    List.count_pos_iff.2 (List.mem_flatMap.2 ⟨other, h, hchild⟩)
  obtain h | h := List.mem_append.1 hmem'
  · have := hcounted h
    omega
  · obtain rfl | h := List.mem_cons.1 h
    · exact hother rfl
    · have := hcounted h
      omega

/-- The two orders hold the same nodes. -/
theorem map_index_preOrder_perm (a : Arena) (depth index : Nat) :
    ((a.preOrder depth index).map (·.index)).Perm (a.postOrder index) := by
  induction index using Nat.strongRecOn generalizing depth with
  | ind index ih =>
    by_cases h : index < a.nodes.size
    · rw [preOrder_eq h, postOrder_eq h, List.map_cons, List.map_flatMap]
      have hbelow : (a.nodes[index].children.flatMap fun child =>
          (a.preOrder (depth + 1) child).map (·.index)).Perm
          (a.nodes[index].children.flatMap a.postOrder) :=
        List.Perm.flatMap_left _ fun child hc => ih child (a.ordered index h child hc) (depth + 1)
      exact (hbelow.cons index).trans (List.perm_append_singleton index _).symm
    · rw [preOrder_eq_nil h, postOrder_eq_nil h, List.map_nil]

/-- A visit names the node that stands at its index. -/
theorem node?_of_mem_preOrder (a : Arena) (depth index : Nat) :
    ∀ v ∈ a.preOrder depth index, a.node? v.index = some v.node := by
  induction index using Nat.strongRecOn generalizing depth with
  | ind index ih =>
    by_cases h : index < a.nodes.size
    · rw [preOrder_eq h]
      intro v hv
      obtain rfl | hv := List.mem_cons.1 hv
      · rw [node?_natCast, Array.getElem?_eq_getElem h]
      · obtain ⟨child, hc, hv⟩ := List.mem_flatMap.1 hv
        exact ih child (a.ordered index h child hc) (depth + 1) v hv
    · simp [preOrder_eq_nil h]

end LenSyntax.Arena

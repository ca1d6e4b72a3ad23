import LenSyntax.Proofs.Arena.Traversal
import Mathlib.Data.List.Basic

/-! Paths that lead downwards in an arena. A path takes, node by node, the child at some place. The
traversal in pre-order meets one node for each path, in the lexicographic order of the paths, so a
node with several parents is met once on each way to it. -/
namespace LenSyntax.Arena

/-- Where a path leads from a node, if it can be followed. -/
def follow? (a : Arena) : (index : Nat) → (path : List Nat) → Option Nat
  | index, [] => if index < a.size then some index else none
  | index, place :: path => (a.children index)[place]?.bind fun child => a.follow? child path

/-- What is met at the end of a path. -/
def visit? (a : Arena) (depth index : Nat) (path : List Nat) : Option Visit :=
  (a.follow? index path).bind fun last => a.nodes[last]?.map (⟨depth + path.length, last, ·⟩)

/-- The paths through one of several children, if those from each child are given. -/
def through (below : Nat → List (List Nat)) (children : List Nat) : List (List Nat) :=
  (children.mapIdx fun place child => (below child).map (place :: ·)).flatten

/-- The paths that lead downwards from a node, in lexicographic order. -/
def paths (a : Arena) (index : Nat) : List (List Nat) :=
  if h : index < a.nodes.size then
    [] :: (a.nodes[index].children.attach.mapIdx fun place child =>
      have := a.ordered index h child.1 child.2
      (paths a child.1).map (place :: ·)).flatten
  else []
  termination_by index

section
variable {a : Arena} {index : Nat} {below : Nat → List (List Nat)} {children : List Nat}

theorem mem_through_iff {path : List Nat} :
    path ∈ through below children ↔
      ∃ place child more, children[place]? = some child ∧ more ∈ below child ∧
        path = place :: more := by
  simp only [through, List.mem_flatten, List.mem_mapIdx]
  constructor
  · rintro ⟨_, ⟨place, hplace, rfl⟩, hpath⟩
    obtain ⟨more, hmore, rfl⟩ := List.mem_map.1 hpath
    exact ⟨place, _, more, List.getElem?_eq_getElem hplace, hmore, rfl⟩
  · rintro ⟨place, child, more, hchild, hmore, rfl⟩
    obtain ⟨hplace, rfl⟩ := List.getElem?_eq_some_iff.1 hchild
    exact ⟨_, ⟨place, hplace, rfl⟩, List.mem_map_of_mem hmore⟩

/-- Paths through an earlier child stand in front of those through a later one. -/
theorem pairwise_through (h : ∀ child ∈ children, (below child).Pairwise (· < ·)) :
    (through below children).Pairwise (· < ·) := by
  rw [through, List.pairwise_flatten]
  constructor
  · intro paths hpaths
    obtain ⟨place, hplace, rfl⟩ := List.mem_mapIdx.1 hpaths
    refine List.pairwise_map.2 ((h _ (List.getElem_mem hplace)).imp ?_)
    intro p q hlt
    exact List.cons_lt_cons_iff.2 (.inr ⟨rfl, hlt⟩)
  · rw [List.pairwise_iff_getElem]
    intro i j hi hj hlt p hp q hq
    rw [List.getElem_mapIdx] at hp hq
    obtain ⟨p, -, rfl⟩ := List.mem_map.1 hp
    obtain ⟨q, -, rfl⟩ := List.mem_map.1 hq
    exact List.cons_lt_cons_iff.2 (.inl hlt)

theorem paths_eq (h : index < a.nodes.size) :
    a.paths index = [] :: through a.paths a.nodes[index].children := by
  rw [paths, dif_pos h, through]
  congr 2
  exact List.ext_getElem (by simp) (by simp)

theorem paths_eq_nil (h : ¬ index < a.nodes.size) : a.paths index = [] := by
  rw [paths, dif_neg h]

/-- The paths are all that can be followed. -/
theorem mem_paths_iff {path : List Nat} :
    path ∈ a.paths index ↔ (a.follow? index path).isSome := by
  induction path generalizing index with
  | nil =>
    by_cases h : index < a.nodes.size
    · simp [paths_eq h, follow?, size, h]
    · simp [paths_eq_nil h, follow?, size, h]
  | cons place path ih =>
    by_cases h : index < a.nodes.size
    · rw [paths_eq h, follow?, children_eq h, Option.isSome_bind]
      simp [mem_through_iff, ih, Option.any_eq_true]
    · have hnone : a.nodes[index]? = none := Array.getElem?_eq_none (Nat.le_of_not_lt h)
      simp [paths_eq_nil h, follow?, Arena.children, hnone]

theorem pairwise_paths (a : Arena) (index : Nat) : (a.paths index).Pairwise (· < ·) := by
  induction index using Nat.strongRecOn with
  | ind index ih =>
    by_cases h : index < a.nodes.size
    · rw [paths_eq h, List.pairwise_cons]
      constructor
      · intro path hpath
        obtain ⟨place, child, more, -, -, rfl⟩ := mem_through_iff.1 hpath
        exact List.nil_lt_cons place more
      · exact pairwise_through fun child hc => ih child (a.ordered index h child hc)
    · simp [paths_eq_nil h]

theorem visit?_cons (h : index < a.nodes.size) {place child : Nat}
    (hchild : a.nodes[index].children[place]? = some child) (depth : Nat) (path : List Nat) :
    a.visit? depth index (place :: path) = a.visit? (depth + 1) child path := by
  rw [visit?, visit?, follow?, children_eq h, hchild, Option.bind_some, List.length_cons,
    Nat.add_assoc, Nat.add_comm 1]

/-- The traversal in pre-order meets what stands at the ends of the paths, in their order. -/
theorem preOrder_eq_filterMap_paths (a : Arena) (depth index : Nat) :
    a.preOrder depth index = (a.paths index).filterMap (a.visit? depth index) := by
  induction index using Nat.strongRecOn generalizing depth with
  | ind index ih =>
    by_cases h : index < a.nodes.size
    · have hhere : a.visit? depth index [] = some ⟨depth, index, a.nodes[index]⟩ := by
        simp [visit?, follow?, size, h]
      rw [preOrder_eq h, paths_eq h, List.filterMap_cons_some hhere, through,
        List.filterMap_flatten, List.flatMap_def]
      congr 2
      apply List.ext_getElem
      · simp
      · intro place hplace _
        simp only [List.getElem_map, List.getElem_mapIdx, List.filterMap_map]
        have hlt : place < a.nodes[index].children.length := by simpa using hplace
        have hmem := List.getElem_mem hlt
        rw [ih _ (a.ordered index h _ hmem)]
        congr 1
        funext path
        exact (visit?_cons h (List.getElem?_eq_getElem _) depth path).symm
    · rw [preOrder_eq_nil h, paths_eq_nil h, List.filterMap_nil]

end
end LenSyntax.Arena

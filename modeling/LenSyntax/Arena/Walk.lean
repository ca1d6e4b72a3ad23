import LenSyntax.Arena.Basic

/-! Walks through an arena: a node, then its children from left to right, each with all below it. A
node with several parents is met once on each path to it. -/
namespace LenSyntax

/-- A node met on a walk. -/
structure Visit where
  depth : Nat
  index : Nat
  node : ArenaNode

namespace Arena

/-- The number of paths that lead downwards from a node, the empty one included. -/
def weight (a : Arena) (index : Nat) : Nat :=
  if h : index < a.nodes.size then
    a.nodes[index].children.attach.foldr (fun child n =>
      have := a.ordered index h child.1 child.2
      weight a child.1 + n) 0 + 1
  else 1
  termination_by index

/-- The number of paths that lead downwards from several nodes. -/
def weights (a : Arena) (indices : List Nat) : Nat :=
  indices.foldr (fun index n => a.weight index + n) 0

@[simp] theorem weights_cons (a : Arena) (index : Nat) (indices : List Nat) :
    a.weights (index :: indices) = a.weight index + a.weights indices := rfl

@[simp] theorem weights_append (a : Arena) (is js : List Nat) :
    a.weights (is ++ js) = a.weights is + a.weights js := by
  induction is with
  | nil => exact (Nat.zero_add _).symm
  | cons i is ih => rw [List.cons_append, weights_cons, weights_cons, ih, Nat.add_assoc]

theorem weight_eq (a : Arena) {index : Nat} (h : index < a.nodes.size) :
    a.weight index = a.weights a.nodes[index].children + 1 := by
  rw [weight, dif_pos h]
  exact congrArg (· + 1) (List.foldr_attach (f := fun child n => a.weight child + n))

theorem weight_pos (a : Arena) (index : Nat) : 0 < a.weight index := by
  rw [weight]; split <;> omega

/-- Visits the nodes on a stack of depths and indices, each followed by all below it; `met` holds
the visits so far. -/
def walkStack (a : Arena) (met : Array Visit) (stack : List (Nat × Nat)) : Array Visit :=
  match stack with
  | [] => met
  | (depth, index) :: stack =>
    if h : index < a.nodes.size then
      walkStack a (met.push ⟨depth, index, a.nodes[index]⟩)
        (a.nodes[index].children.map (depth + 1, ·) ++ stack)
    else walkStack a met stack
  termination_by a.weights (stack.map (·.2))
  decreasing_by
  · rw [List.map_append, List.map_map, List.map_cons, weights_append, weights_cons, a.weight_eq h]
    have : a.nodes[index].children.map ((·.2) ∘ (depth + 1, ·)) = a.nodes[index].children :=
      List.map_id _
    rw [this]
    omega
  · have := a.weight_pos index
    rw [List.map_cons, weights_cons]
    exact Nat.lt_add_of_pos_left this

/-- The walk from a node. A negative index leads nowhere, one past the end is an error. -/
def walkFrom? (a : Arena) (start : Int) : Option (List Visit) :=
  if start < 0 then some []
  else if start < a.size then some (a.walkStack #[] [(0, start.toNat)]).toList
  else none

/-- The walk from the root. -/
def walk? (a : Arena) : Option (List Visit) := a.walkFrom? a.root

/-- The nodes of a kind below the root, in the order of the walk. -/
def find? (a : Arena) (kind : NodeKind) : Option (List Visit) :=
  a.walk?.map fun visits => visits.filter (·.node.kind = kind)

end Arena
end LenSyntax

import LenSyntax.Tree.Basic

/-! Arenas: nodes in a row that name their children by index. Every child stands in front of its
parents, so an arena has no cycles. -/
namespace LenSyntax

structure ArenaNode where
  kind : NodeKind
  text : Text
  span : Span
  children : List Nat

/-- `root` is the index of the node where walks start; a negative one leads nowhere. -/
structure Arena where
  nodes : Array ArenaNode
  root : Int
  ordered : ∀ i (h : i < nodes.size), ∀ child ∈ nodes[i].children, child < i

/-- The first child of a new node that is no earlier node. -/
structure NoSuchChild where
  child : Int
  deriving DecidableEq

def NoSuchChild.message (e : NoSuchChild) : Text :=
  "child index " ++ Text.ofInt e.child ++ " is not an earlier node"

namespace Arena

def empty : Arena := ⟨#[], -1, fun _ h => absurd h (by simp)⟩

def size (a : Arena) : Nat := a.nodes.size

/-- Appends a node whose children are there. -/
def push (a : Arena) (n : ArenaNode) (h : ∀ child ∈ n.children, child < a.size) : Arena where
  nodes := a.nodes.push n
  root := a.root
  ordered := by
    intro i hi child hc
    simp only [Array.size_push] at hi
    by_cases hlt : i < a.nodes.size
    · rw [Array.getElem_push_lt hlt] at hc
      exact a.ordered i hlt child hc
    · obtain rfl : i = a.nodes.size := by omega
      rw [Array.getElem_push_eq] at hc
      exact h child hc

@[simp] theorem size_push (a : Arena) (n : ArenaNode) (h) : (a.push n h).size = a.size + 1 := by
  simp [size, push]

/-- Appends a node, unless one of its children is missing. -/
def add (a : Arena) (kind : NodeKind) (text : Text) (span : Span) (children : List Int) :
    Except NoSuchChild Arena :=
  match h : children.find? fun c => c < 0 || (a.size : Int) ≤ c with
  | some child => .error ⟨child⟩
  | none => .ok <| a.push ⟨kind, text, span, children.map Int.toNat⟩ fun child hc => by
      obtain ⟨c, hmem, rfl⟩ := List.mem_map.1 hc
      have := List.find?_eq_none.1 h c hmem
      simp only [Bool.or_eq_true, decide_eq_true_eq, not_or] at this
      omega

/-- The node at an index; a negative index counts from the end. -/
def node? (a : Arena) (index : Int) : Option ArenaNode :=
  if index < 0 then
    if -index ≤ a.size then a.nodes[(a.size + index).toNat]? else none
  else a.nodes[index.toNat]?

def withRoot (a : Arena) (root : Int) : Arena := ⟨a.nodes, root, a.ordered⟩

end Arena
end LenSyntax

import LenSyntax.Proofs.Arena.PostOrder
import LenSyntax.Proofs.Grammar.Printing

/-! Trees with other spans. Where the nodes of a tree stand in the source makes no difference to
where they stand in its arena. -/
namespace LenSyntax

/-- A node of an arena with another span. -/
def ArenaNode.respan (f : Span → Span) (n : ArenaNode) : ArenaNode := { n with span := f n.span }

namespace SyntaxTree
variable (f : Span → Span)

mutual

/-- A tree all of whose spans are mapped. -/
def respan : SyntaxTree → SyntaxTree
  | node kind text span children => node kind text (f span) (respanAll children)

def respanAll : List SyntaxTree → List SyntaxTree
  | [] => []
  | t :: ts => t.respan :: respanAll ts

end

mutual

theorem size_respan : (t : SyntaxTree) → (t.respan f).size = t.size
  | node kind text span children => by rw [respan, size, size, sizeAll_respanAll children]

theorem sizeAll_respanAll : (ts : List SyntaxTree) → sizeAll (respanAll f ts) = sizeAll ts
  | [] => rfl
  | t :: ts => by rw [respanAll, sizeAll, sizeAll, size_respan t, sizeAll_respanAll ts]

end

theorem roots_respanAll (base : Nat) (ts : List SyntaxTree) :
    roots base (respanAll f ts) = roots base ts := by
  induction ts generalizing base with
  | nil => rfl
  | cons t ts ih => rw [respanAll, roots, roots, size_respan, ih]

mutual

theorem placed_respan (base : Nat) :
    (t : SyntaxTree) → (t.respan f).placed base = (t.placed base).map (·.respan f)
  | node kind text span children => by
    rw [respan, placed, placed, placedAll_respanAll base children, roots_respanAll, List.map_append]
    rfl

theorem placedAll_respanAll (base : Nat) :
    (ts : List SyntaxTree) → placedAll base (respanAll f ts) = (placedAll base ts).map (·.respan f)
  | [] => rfl
  | t :: ts => by
    rw [respanAll, placedAll, placedAll, placed_respan base t, size_respan,
      placedAll_respanAll _ ts, List.map_append]

end

/-- The arena of a tree with other spans has the same nodes with these spans. -/
theorem nodes_arena_respan (t : SyntaxTree) :
    (t.respan f).arena.nodes = t.arena.nodes.map (·.respan f) := by
  apply Array.toList_inj.1
  rw [toList_nodes_arena, Array.toList_map, toList_nodes_arena, placed_respan]

theorem root_arena_respan (t : SyntaxTree) : (t.respan f).arena.root = t.arena.root := by
  rw [root_arena, root_arena, size_respan]

mutual

/-- To forget all spans is to map them to one. -/
theorem unplaced_eq_respan : (t : SyntaxTree) → t.unplaced = t.respan fun _ => default
  | node kind text span children => by rw [unplaced, respan, unplacedAll_eq_respanAll children]

theorem unplacedAll_eq_respanAll :
    (ts : List SyntaxTree) → unplacedAll ts = respanAll (fun _ => default) ts
  | [] => rfl
  | t :: ts => by
    rw [unplacedAll, respanAll, unplaced_eq_respan t, unplacedAll_eq_respanAll ts]

end

end SyntaxTree

end LenSyntax

import LenSyntax.Arena.OfTree

/-! The nodes of a tree: the tree itself and all trees inside it. Its arena holds the same nodes. -/
namespace LenSyntax.SyntaxTree

mutual

/-- A tree and all trees inside it. -/
def nodes : SyntaxTree → List SyntaxTree
  | node kind text span children => node kind text span children :: nodesAll children

def nodesAll : List SyntaxTree → List SyntaxTree
  | [] => []
  | t :: ts => t.nodes ++ nodesAll ts

end

theorem nodesAll_eq_flatMap (ts : List SyntaxTree) : nodesAll ts = ts.flatMap nodes := by
  induction ts with
  | nil => rfl
  | cons t ts ih => rw [nodesAll, ih, List.flatMap_cons]

/-- What holds of all nodes holds of the root and of all nodes below each child. -/
theorem forall_mem_nodes {P : SyntaxTree → Prop} (kind : NodeKind) (text : Text) (span : Span)
    (children : List SyntaxTree) :
    (∀ n ∈ (node kind text span children).nodes, P n) ↔
      P (node kind text span children) ∧ ∀ c ∈ children, ∀ n ∈ c.nodes, P n := by
  simp only [nodes, nodesAll_eq_flatMap, List.mem_cons, List.mem_flatMap]
  constructor
  · intro h
    exact ⟨h _ (.inl rfl), fun c hc n hn => h n (.inr ⟨c, hc, hn⟩)⟩
  · rintro ⟨hroot, hbelow⟩ n (rfl | ⟨c, hc, hn⟩)
    · exact hroot
    · exact hbelow c hc n hn

section Arena
variable {P : Span → Prop}

mutual

/-- The nodes that a tree appends stand where its nodes do. -/
theorem forall_span_appendTo {nodes : Array ArenaNode} (h : ∀ n ∈ nodes, P n.span) :
    ∀ t : SyntaxTree, (∀ m ∈ t.nodes, P m.span) → ∀ n ∈ t.appendTo nodes, P n.span
  | node kind text span children, ht => by
    rw [forall_mem_nodes] at ht
    have hbelow := forall_span_appendAllTo h [] children ht.2
    intro n hn
    rw [appendTo, Array.mem_push] at hn
    obtain hn | rfl := hn
    · exact hbelow n hn
    · exact ht.1

theorem forall_span_appendAllTo {nodes : Array ArenaNode} (h : ∀ n ∈ nodes, P n.span)
    (roots : List Nat) : ∀ ts : List SyntaxTree, (∀ t ∈ ts, ∀ m ∈ t.nodes, P m.span) →
      ∀ n ∈ (appendAllTo nodes roots ts).1, P n.span
  | [], _ => by simpa [appendAllTo] using h
  | t :: ts, ht => by
    rw [appendAllTo]
    exact forall_span_appendAllTo (forall_span_appendTo h t (ht t List.mem_cons_self)) _ ts
      fun u hu => ht u (List.mem_cons_of_mem t hu)

end

/-- The nodes of an arena stand where those of its tree do. -/
theorem forall_span_arena {t : SyntaxTree} (h : ∀ m ∈ t.nodes, P m.span) :
    ∀ n ∈ t.arena.nodes, P n.span :=
  forall_span_appendTo (by simp) t h

end Arena

end LenSyntax.SyntaxTree

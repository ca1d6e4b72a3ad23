import LenSyntax.Proofs.Arena.PostOrder
import LenSyntax.Proofs.Machine.Program

/-! The arena grows behind its last node. The trees that the machine holds are those that it has
made, in the order in which it has made them: the statements first, then what waits in the frames
from the outermost to the innermost, then what it is busy with. Their nodes stand in the arena
already, and no step changes one of them. -/
namespace LenSyntax

namespace SyntaxTree

theorem placedAll_append (base : Nat) (ts us : List SyntaxTree) :
    placedAll base (ts ++ us) = placedAll base ts ++ placedAll (base + sizeAll ts) us := by
  induction ts generalizing base with
  | nil => rfl
  | cons t ts ih =>
    rw [List.cons_append, placedAll, ih, placedAll, sizeAll, List.append_assoc, Nat.add_assoc]

theorem placedAll_prefix_append (base : Nat) (ts us : List SyntaxTree) :
    placedAll base ts <+: placedAll base (ts ++ us) := by
  rw [placedAll_append]
  exact List.prefix_append _ _

/-- A node is placed behind its children, so those that are there may become children of it. -/
theorem placedAll_prefix_node (base : Nat) (ts us vs : List SyntaxTree) (kind : NodeKind)
    (text : Text) (span : Span) :
    placedAll base (ts ++ us) <+: placedAll base (ts ++ [node kind text span (us ++ vs)]) := by
  rw [placedAll_append, placedAll_append, List.prefix_append_right_inj, placedAll, placed,
    List.append_assoc]
  exact (placedAll_prefix_append _ us vs).trans (List.prefix_append _ _)

end SyntaxTree

namespace Machine

open SyntaxTree ExpressionParser

/-- The trees that wait in a frame. -/
def Frame.trees : Frame → List SyntaxTree
  | operation _ left _ => [left]
  | call function => [function]
  | product _ before => before
  | _ => []

/-- The trees that a task is busy with. Those in front of a field wait in the frame of its
product. -/
def Task.trees : Task → List SyntaxTree
  | fields _ trees => trees
  | value t => [t]
  | _ => []

namespace State

/-- The trees that nothing is done with for now. -/
def waiting (x : State) : List SyntaxTree := x.statements ++ x.frames.reverse.flatMap Frame.trees

/-- The nodes in the arena so far. -/
def nodes (x : State) : List ArenaNode := placedAll 0 (x.waiting ++ x.task.trees)

variable {limit : Nat} {ending : Span} {x y : State}

/-- A frame is left behind. -/
theorem nodes_of_frame {f : Frame} (hs : y.statements = x.statements)
    (hf : y.frames = f :: x.frames) :
    y.nodes = placedAll 0 (x.waiting ++ (f.trees ++ y.task.trees)) := by
  simp [nodes, waiting, hs, hf]

theorem nodes_enters (x : State) (f : Frame) (task : Task) (rest : List Token) :
    (x.enters f task rest).nodes = placedAll 0 (x.waiting ++ (f.trees ++ task.trees)) :=
  nodes_of_frame rfl rfl

/-- What the machine was busy with waits in a frame. -/
theorem nodes_prefix_of_frame {f : Frame} (hs : y.statements = x.statements)
    (hf : y.frames = f :: x.frames) (ht : x.task.trees = f.trees) : x.nodes <+: y.nodes := by
  rw [nodes_of_frame hs hf, nodes, ht, ← List.append_assoc]
  exact placedAll_prefix_append 0 _ _

/-- The machine goes on with the trees that it is busy with, and with more. -/
theorem nodes_prefix_of_trees (us : List SyntaxTree) (hw : y.waiting = x.waiting)
    (ht : y.task.trees = x.task.trees ++ us) : x.nodes <+: y.nodes := by
  rw [nodes, nodes, hw, ht, ← List.append_assoc]
  exact placedAll_prefix_append 0 _ us

theorem nodes_prefix_reads (ht : x.task.trees = []) (p : Parsed SyntaxTree) :
    x.nodes <+: (x.reads p).nodes :=
  nodes_prefix_of_trees [p.value] rfl (by rw [ht]; rfl)

/-- A bracket is made of trees that are there and of more. -/
theorem nodes_prefix_closes (x : State) (b : Bracket) (opening : Token) (us vs : List SyntaxTree) :
    placedAll 0 (x.waiting ++ us) <+: (x.closes limit ending b opening (us ++ vs)).nodes :=
  placedAll_prefix_node 0 x.waiting us vs _ _ _

section Tasks

/-- A task without trees of its own is done at once, or leaves a frame without trees behind. -/
theorem nodes_prefix_stepStatement (ht : x.task = .statement) :
    x.nodes <+: x.stepStatement.nodes := by
  have htrees : x.task.trees = [] := by rw [ht]; rfl
  unfold stepStatement
  split
  · exact nodes_prefix_of_frame rfl rfl htrees
  · exact nodes_prefix_of_trees [] rfl (by rw [htrees]; rfl)

theorem nodes_prefix_stepExpression {least : Nat} (ht : x.task = .expression least) :
    x.nodes <+: (x.stepExpression limit ending least).nodes := by
  have htrees : x.task.trees = [] := by rw [ht]; rfl
  unfold stepExpression
  split
  · exact nodes_prefix_reads htrees _
  · exact nodes_prefix_of_frame rfl rfl htrees

theorem nodes_prefix_stepUnary (ht : x.task = .unary) : x.nodes <+: x.stepUnary.nodes := by
  have htrees : x.task.trees = [] := by rw [ht]; rfl
  unfold stepUnary
  split
  · exact nodes_prefix_of_frame rfl rfl htrees
  split <;> exact nodes_prefix_of_frame rfl rfl htrees

theorem nodes_prefix_stepOperand (ht : x.task = .operand) :
    x.nodes <+: (x.stepOperand limit ending).nodes := by
  have htrees : x.task.trees = [] := by rw [ht]; rfl
  have hreads (p : Parsed SyntaxTree) : x.nodes <+: (x.reads p).nodes :=
    nodes_prefix_reads htrees p
  simp only [stepOperand]
  split
  · exact hreads _
  split
  case h_4 =>
    split
    · exact nodes_prefix_of_frame rfl rfl htrees
    · exact hreads _
  case h_5 => exact nodes_prefix_of_frame rfl rfl htrees
  case h_6 => exact nodes_prefix_of_trees [] rfl (by rw [htrees]; rfl)
  case h_8 => split <;> exact hreads _
  all_goals exact hreads _

theorem nodes_prefix_stepFields {opening : Token} {trees : List SyntaxTree}
    (ht : x.task = .fields opening trees) :
    x.nodes <+: (x.stepFields limit ending opening trees).nodes := by
  have htrees : x.task.trees = trees := by rw [ht]; rfl
  unfold stepFields
  split
  · rw [nodes, htrees]
    simpa only [List.append_nil] using nodes_prefix_closes x .brace opening trees []
  · exact nodes_prefix_of_frame rfl rfl htrees

theorem nodes_prefix_stepField {before : List SyntaxTree} (ht : x.task = .field before) :
    x.nodes <+: (x.stepField limit ending before).nodes := by
  have htrees : x.task.trees = [] := by rw [ht]; rfl
  unfold stepField
  split
  · exact nodes_prefix_of_frame rfl rfl htrees
  · exact nodes_prefix_reads htrees _

end Tasks

/-- A value that is returned to a frame comes behind what waits in it. -/
theorem nodes_prefix_resume (x : State) (t : SyntaxTree) (f : Frame) :
    placedAll 0 (x.waiting ++ (f.trees ++ [t])) <+: (x.resume limit ending t f).nodes := by
  have hnode (kind : NodeKind) (text : Text) (span : Span) (us : List SyntaxTree) :
      placedAll 0 (x.waiting ++ us) <+: placedAll 0 (x.waiting ++ [node kind text span us]) := by
    simpa only [List.append_nil] using placedAll_prefix_node 0 x.waiting us [] kind text span
  cases f with
  | binding name => exact hnode _ _ _ [t]
  | negate u => exact hnode _ _ _ [t]
  | lambda parameter => exact hnode _ _ _ [t]
  | field before name => exact hnode _ _ _ [t]
  | operations least =>
    simp only [resume, resumeOperations]
    split
    · exact List.prefix_rfl
    split
    · exact List.prefix_rfl
    split
    · exact List.prefix_rfl
    · rw [nodes_enters]
      exact List.prefix_rfl
  | operation least left u =>
    rw [resume, nodes_enters]
    exact hnode _ _ _ [left, t]
  | calls =>
    simp only [resume]
    split
    · rw [nodes_enters]
      exact List.prefix_rfl
    · exact List.prefix_rfl
  | call function =>
    rw [resume, nodes_enters]
    exact hnode _ _ _ [function, t]
  | group opening =>
    let more := leftover (x.surroundings limit ending) x.rest
    exact nodes_prefix_closes
      { x with diagnostics := x.diagnostics ++ more.diagnostics, rest := more.rest } .paren opening
      [t] more.value
  | product opening before =>
    have hmore (us : List SyntaxTree) : placedAll 0 (x.waiting ++ (before ++ [t])) <+:
        placedAll 0 (x.waiting ++ (before ++ [t] ++ us)) := by
      rw [← List.append_assoc _ _ us]
      exact placedAll_prefix_append 0 _ us
    simp only [resume, resumeProduct]
    split
    · exact List.prefix_rfl
    split
    · exact List.prefix_rfl
    · exact hmore _

/-- Behind a statement its tree stands among the statements. -/
theorem nodes_prefix_finish {t : SyntaxTree} (ht : x.task = .value t) (hf : x.frames = []) :
    x.nodes <+: (x.finish limit ending t).nodes := by
  have hnodes : x.nodes = placedAll 0 (x.statements ++ [t]) := by
    simp [nodes, waiting, hf, ht, Task.trees]
  have hmore {y : State} (us : List SyntaxTree) (ht : y.task.trees = []) (hf : y.frames = [])
      (hs : y.statements = x.statements ++ [t] ++ us) : x.nodes <+: y.nodes := by
    rw [hnodes, nodes, waiting, hs, hf, ht]
    simpa using placedAll_prefix_append 0 (x.statements ++ [t]) us
  unfold finish
  split
  · exact hmore [] rfl hf (by simp)
  split
  · exact hmore [] rfl hf (by simp)
  · exact hmore [_] rfl hf (List.append_cons _ _ _)

/-- No step changes a node that is there. -/
theorem nodes_prefix_step (hs : x.step limit ending = some y) : x.nodes <+: y.nodes := by
  cases ht : x.task with
  | program =>
    simp only [step, ht] at hs
    split at hs <;> cases hs
    split
    · exact nodes_prefix_of_trees [] rfl (by rw [ht]; rfl)
    · exact nodes_prefix_of_trees [] rfl (by rw [ht]; rfl)
  | statement =>
    simp only [step, ht, Option.some_inj] at hs
    exact hs ▸ nodes_prefix_stepStatement ht
  | expression least =>
    simp only [step, ht, Option.some_inj] at hs
    exact hs ▸ nodes_prefix_stepExpression ht
  | unary =>
    simp only [step, ht, Option.some_inj] at hs
    exact hs ▸ nodes_prefix_stepUnary ht
  | operand =>
    simp only [step, ht, Option.some_inj] at hs
    exact hs ▸ nodes_prefix_stepOperand ht
  | fields opening trees =>
    simp only [step, ht, Option.some_inj] at hs
    exact hs ▸ nodes_prefix_stepFields ht
  | field before =>
    simp only [step, ht, Option.some_inj] at hs
    exact hs ▸ nodes_prefix_stepField ht
  | value t =>
    cases hframes : x.frames with
    | nil =>
      simp only [step, ht, hframes, Option.some_inj] at hs
      exact hs ▸ nodes_prefix_finish ht hframes
    | cons f frames =>
      simp only [step, ht, hframes, Option.some_inj] at hs
      subst hs
      have hnodes : x.nodes =
          placedAll 0 (State.waiting { x with frames } ++ (f.trees ++ [t])) := by
        rw [nodes_of_frame (x := { x with frames }) (y := x) rfl hframes, ht]
        rfl
      exact hnodes ▸ nodes_prefix_resume _ t f

theorem nodes_prefix_reaches (h : Reaches limit ending x y) : x.nodes <+: y.nodes := by
  induction h with
  | refl => exact List.prefix_rfl
  | tail _ hs ih => exact ih.trans (nodes_prefix_step hs)

/-- Between statements the nodes that are there stand in front of all others in the arena of the
program. -/
theorem nodes_prefix_program (ht : x.task = .program) (hf : x.frames = []) (ending : Span) :
    x.nodes <+: (x.program ending).tree.arena.nodes.toList := by
  have hnodes : x.nodes = placedAll 0 x.statements := by
    simp [nodes, waiting, ht, hf, Task.trees]
  rw [toList_nodes_arena, program, placed, hnodes]
  exact List.prefix_append _ _

end State
end Machine

open Machine

/-- The nodes that are there at any moment of parsing stand in front of all others in the arena of
the program. -/
theorem Program.nodes_prefix_arena (config : Config) (tokens : List Token) {x : State}
    (h : Reaches config.maxDepth (ending tokens) (start (significant tokens)) x) :
    x.nodes <+: (parse config tokens).tree.arena.nodes.toList := by
  obtain ⟨z, hz, ⟨htask, hframes, hrest⟩, hprogram⟩ := reaches_last config tokens
  rw [← hprogram]
  refine .trans ?_ (z.nodes_prefix_program htask hframes _)
  have hunique : Relator.RightUnique fun y z : State =>
      y.step config.maxDepth (ending tokens) = some z :=
    fun _ _ _ hy hz => Option.some.inj (hy.symm.trans hz)
  obtain hxz | hzx := h.total_of_right_unique hunique hz
  · exact State.nodes_prefix_reaches hxz
  -- nothing comes behind the last statement
  · obtain rfl | ⟨y, hy, -⟩ := hzx.cases_head
    · exact List.prefix_rfl
    · simp only [State.step, htask, hrest] at hy
      cases hy

end LenSyntax

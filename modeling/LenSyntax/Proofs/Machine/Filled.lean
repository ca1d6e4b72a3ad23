import LenSyntax.Proofs.Grammar.Size
import LenSyntax.Proofs.Machine.Filling
import LenSyntax.Proofs.Machine.Growing

/-! The arena that the parser fills is that of the program. A state of the machine with trees tells
which state with indices goes with it: the nodes of its trees stand in the arena one behind the
other, and an index is the place where the root of a tree stands. The parser that fills an arena
does step by step what the machine does, so none of its indices is ever wrong. -/
namespace LenSyntax

open Machine SyntaxTree ExpressionParser

namespace SyntaxTree

theorem roots_append (base : Nat) (ts us : List SyntaxTree) :
    roots base (ts ++ us) = roots base ts ++ roots (base + sizeAll ts) us := by
  induction ts generalizing base with
  | nil => rfl
  | cons t ts ih =>
    rw [List.cons_append, roots, ih, roots, sizeAll, List.cons_append, Nat.add_assoc]

theorem getLast?_roots (base : Nat) (ts : List SyntaxTree) (t : SyntaxTree) :
    (roots base (ts ++ [t])).getLast? = some (base + sizeAll ts + t.size - 1) := by
  rw [roots_append, roots, roots, List.getLast?_concat]

/-- Roots stand among the nodes of their trees. -/
theorem lt_of_mem_roots {base root : Nat} {ts : List SyntaxTree} (h : root ∈ roots base ts) :
    root < base + sizeAll ts := by
  induction ts generalizing base with
  | nil => cases h
  | cons t ts ih =>
    have hpos := t.size_pos
    rw [sizeAll]
    obtain rfl | h := List.mem_cons.1 h
    · omega
    · have := ih h
      omega

end SyntaxTree

namespace Arena

theorem eq_of_toList_eq {a b : Arena} (hnodes : a.nodes.toList = b.nodes.toList)
    (hroot : a.root = b.root) : a = b := by
  obtain ⟨nodes, root, ordered⟩ := a
  obtain ⟨nodes', root', ordered'⟩ := b
  obtain rfl : nodes = nodes' := Array.toList_inj.1 hnodes
  obtain rfl : root = root' := hroot
  rfl

section
variable {a : Arena}

theorem size_of_placed {ts : List SyntaxTree} (h : a.nodes.toList = placedAll 0 ts) :
    a.size = sizeAll ts := by
  rw [size, ← Array.length_toList, h, placedAll_length]

/-- The node of a tree that stands in an arena. -/
theorem getElem?_of_placed {ts us : List SyntaxTree} {t : SyntaxTree}
    (h : a.nodes.toList = placedAll 0 (ts ++ t :: us)) :
    a.nodes[sizeAll ts + t.size - 1]? =
      some ⟨t.kind, t.text, t.span, roots (sizeAll ts) t.children⟩ := by
  obtain ⟨kind, text, span, children⟩ := t
  have hplaced : a.nodes.toList = placedAll 0 ts ++
      (SyntaxTree.node kind text span children).placed (sizeAll ts) ++
        placedAll (sizeAll ts + (SyntaxTree.node kind text span children).size) us := by
    rw [h, placedAll_append, placedAll, Nat.zero_add, List.append_assoc]
  rw [SyntaxTree.size, ← Nat.add_assoc, Nat.add_sub_cancel]
  exact getElem?_placed a _ _ (placedAll_length 0 ts) hplaced

/-- A node is added behind the trees that become its children. -/
theorem add_of_placed {ts us : List SyntaxTree} (h : a.nodes.toList = placedAll 0 (ts ++ us))
    (kind : NodeKind) (text : Text) (span : Span) :
    ∃ b, a.add kind text span ((roots (sizeAll ts) us).map Int.ofNat) = .ok b ∧
      b.nodes.toList = placedAll 0 (ts ++ [.node kind text span us]) := by
  have hsize : a.size = sizeAll ts + sizeAll us := by rw [size_of_placed h, sizeAll_append]
  -- the roots stand among the nodes of their trees, so none of them is out of range
  have hfind : ((roots (sizeAll ts) us).map Int.ofNat).find?
      (fun c => decide (c < 0) || decide ((a.size : Int) ≤ c)) = none := by
    rw [List.find?_eq_none]
    intro c hc
    obtain ⟨root, hroot, rfl⟩ := List.mem_map.1 hc
    have hlt := lt_of_mem_roots hroot
    simp only [Int.ofNat_eq_natCast, Bool.or_eq_true, decide_eq_true_eq, not_or]
    omega
  unfold add
  split
  · next hsome => rw [hfind] at hsome; cases hsome
  · refine ⟨_, rfl, ?_⟩
    have hback : ((roots (sizeAll ts) us).map Int.ofNat).map Int.toNat = roots (sizeAll ts) us := by
      rw [List.map_map]
      exact List.map_id _
    rw [push, Array.toList_push, h, hback, placedAll_append, placedAll_append, placedAll, placed,
      placedAll, List.append_nil, Nat.zero_add, List.append_assoc]

end

end Arena

namespace Machine

/-- The names of the fields among trees. -/
def fieldNames (ts : List SyntaxTree) : List Text :=
  ts.flatMap fun t => (Filling.fieldName? t.kind t.text).toList

theorem fieldNames_append (ts us : List SyntaxTree) :
    fieldNames (ts ++ us) = fieldNames ts ++ fieldNames us := List.flatMap_append

theorem hasField_eq (name : Text) (ts : List SyntaxTree) :
    hasField name ts = decide (name ∈ fieldNames ts) := by
  rw [Bool.eq_iff_iff, decide_eq_true_eq]
  simp only [hasField, fieldNames, Filling.fieldName?, List.any_eq_true, List.mem_flatMap,
    Bool.and_eq_true, decide_eq_true_eq, Option.mem_toList, Option.ite_none_right_eq_some,
    Option.some.injEq]

/-- The task with indices, if the trees of a task stand from `base` on. -/
def Task.indexed (base : Nat) : Task → Filling.Task
  | program => .program
  | statement => .statement
  | expression least => .expression least
  | unary => .unary
  | operand => .operand
  | fields opening trees => .fields opening (roots base trees) (fieldNames trees)
  | field before => .field (fieldNames before)
  | value t => .value (base + t.size - 1)

/-- The frame with indices, if the trees of a frame stand from `base` on. -/
def Frame.indexed (base : Nat) : Frame → Filling.Frame
  | binding name => .binding name
  | operations least => .operations least
  | operation least left u => .operation least (base + left.size - 1) u
  | negate u => .negate u
  | calls => .calls
  | call function => .call (base + function.size - 1)
  | lambda parameter => .lambda parameter
  | group opening => .group opening
  | product opening before => .product opening (roots base before) (fieldNames before)
  | field before name => .field (fieldNames before) name

/-- The trees of each frame stand behind the statements and the trees of the frames around it. -/
def indexedFrames (statements : List SyntaxTree) : List Frame → List Filling.Frame
  | [] => []
  | f :: frames =>
    f.indexed (sizeAll (statements ++ frames.reverse.flatMap Frame.trees)) ::
      indexedFrames statements frames

namespace State

/-- The state with indices, apart from its task. -/
def indexed (y : State) (a : Arena) (task : Filling.Task) : Filling :=
  ⟨task, indexedFrames y.statements y.frames, y.depth, y.closers, y.rest, y.diagnostics,
    roots 0 y.statements, a⟩

/-- The state with indices that goes with a state, and with an arena in which its nodes stand. -/
def filling (y : State) (a : Arena) : Filling :=
  y.indexed a (y.task.indexed (sizeAll y.waiting))

theorem rest_indexed (y : State) (a : Arena) (task : Filling.Task) :
    (y.indexed a task).rest = y.rest := by rw [indexed]

theorem surroundings_indexed (y : State) (a : Arena) (task : Filling.Task) (limit : Nat)
    (ending : Span) :
    (y.indexed a task).surroundings limit ending = y.surroundings limit ending := by
  rw [indexed, Filling.surroundings, surroundings]

theorem waiting_of_frame {y : State} {f : Frame} {frames : List Frame}
    (hf : y.frames = f :: frames) :
    y.waiting = State.waiting { y with frames } ++ f.trees := by
  simp [waiting, hf]

theorem waiting_enters (y : State) (f : Frame) (task : Task) (rest : List Token) :
    (y.enters f task rest).waiting = y.waiting ++ f.trees := by
  simp [waiting, enters]

end State

end Machine

namespace Filling

/-- An arena in which the nodes of a state stand, and the state with indices. -/
def Fills (x : Filling) (y : State) : Prop := x.arena.nodes.toList = y.nodes ∧ x = y.filling x.arena

/-- What is done goes well, and leads to what goes with a state. -/
def Follows (r : Except Misstep Filling) (y : State) : Prop := ∃ x, r = .ok x ∧ x.Fills y

variable {limit : Nat} {ending : Span} {x : Filling} {y : State} {a : Arena} {τ : Task}

theorem Fills.follows (h : x.Fills y) : Follows (.ok x) y := ⟨x, rfl, h⟩

section Parts
variable {l m : List SyntaxTree} {t : SyntaxTree}

theorem node_of_placed (h : a.nodes.toList = placedAll 0 (l ++ t :: m)) :
    (y.indexed a τ).node (sizeAll l + t.size - 1) =
      .ok ⟨t.kind, t.text, t.span, roots (sizeAll l) t.children⟩ := by
  simp only [node, State.indexed, Arena.getElem?_of_placed h]

theorem add_of_placed (h : a.nodes.toList = placedAll 0 (l ++ m)) (kind : NodeKind) (text : Text)
    (span : Span) :
    ∃ b, b.nodes.toList = placedAll 0 (l ++ [.node kind text span m]) ∧
      (y.indexed a τ).add kind text span (roots (sizeAll l) m) =
        .ok (sizeAll l + sizeAll m, y.indexed b τ) := by
  obtain ⟨b, hb, hplaced⟩ := Arena.add_of_placed h kind text span
  refine ⟨b, hplaced, ?_⟩
  simp only [add, State.indexed, hb, Arena.size_of_placed h, sizeAll_append]

theorem follows_makes (h : a.nodes.toList = placedAll 0 (y.waiting ++ m)) (kind : NodeKind)
    (text : Text) (span : Span) :
    Follows ((y.indexed a τ).makes kind text span (roots (sizeAll y.waiting) m))
      { y with task := .value (.node kind text span m) } := by
  obtain ⟨b, hplaced, hadd⟩ := add_of_placed (y := y) (τ := τ) h kind text span
  refine ⟨_, by rw [makes, hadd]; rfl, hplaced, rfl⟩

theorem follows_makes_leaf (h : a.nodes.toList = placedAll 0 y.waiting) (kind : NodeKind)
    (text : Text) (span : Span) :
    Follows ((y.indexed a τ).makes kind text span [])
      { y with task := .value (.node kind text span []) } :=
  follows_makes (m := []) (by rw [h, List.append_nil]) kind text span

/-- Where tokens are skipped, a node for them is added behind all others. -/
theorem recover_of_placed (limit : Nat) (ending : Span) (h : a.nodes.toList = placedAll 0 l)
    (fault : SyntaxFault) :
    let skipped := (y.surroundings limit ending).recover fault y.rest
    ∃ b, b.nodes.toList = placedAll 0 (l ++ [skipped.value]) ∧
      (y.indexed a τ).recover limit ending fault =
        .ok (sizeAll l, { y with
          diagnostics := y.diagnostics ++ skipped.diagnostics
          rest := skipped.rest }.indexed b τ) := by
  intro skipped
  obtain ⟨b, hplaced, hadd⟩ := add_of_placed (τ := τ) (l := l) (m := [])
    (y := { y with diagnostics := y.diagnostics ++ skipped.diagnostics, rest := skipped.rest })
    (by rw [h, List.append_nil]) .error fault.message skipped.value.span
  exact ⟨b, hplaced, hadd⟩

theorem follows_skips (h : a.nodes.toList = placedAll 0 y.waiting) (fault : SyntaxFault) :
    Follows ((y.indexed a τ).skips limit ending fault)
      (y.reads ((y.surroundings limit ending).recover fault y.rest)) := by
  obtain ⟨b, hplaced, hrecover⟩ :=
    recover_of_placed limit ending (y := y) (τ := τ) h fault
  exact ⟨_, by rw [skips, hrecover]; rfl, hplaced, rfl⟩

theorem follows_missing (h : a.nodes.toList = placedAll 0 y.waiting) (fault : SyntaxFault) :
    Follows ((y.indexed a τ).missing limit ending fault)
      (y.reads ((y.surroundings limit ending).missing fault y.rest)) := by
  let here := (y.surroundings limit ending).here y.rest
  exact follows_makes_leaf
    (y := { y with diagnostics := y.diagnostics ++ [.error fault.message here] }) h _ _ _

theorem follows_leaf (h : a.nodes.toList = placedAll 0 y.waiting) (kind : NodeKind) (text : Text)
    (t : Token) (rest : List Token) :
    Follows ((y.indexed a τ).leaf kind text t rest)
      (y.reads ⟨.node kind text t.span [], [], rest⟩) := by
  rw [State.reads, List.append_nil]
  exact follows_makes_leaf (y := { y with rest }) h kind text t.span

theorem lastStop_of_placed (h : a.nodes.toList = placedAll 0 (l ++ m)) (b : Bracket)
    (opening : Token) :
    (y.indexed a τ).lastStop opening (roots (sizeAll l) m) =
      .ok (bracket b opening m).span.stop := by
  obtain rfl | ⟨m, t, rfl⟩ := m.eq_nil_or_concat'
  · rfl
  · -- the last index is that of the last tree, whose node tells where it stops
    rw [← List.append_assoc] at h
    have hnode := node_of_placed (y := y) (τ := τ) h
    rw [sizeAll_append] at hnode
    simp only [lastStop, getLast?_roots, hnode, bracket, span_node, List.getLast?_concat,
      Option.map_some, Option.getD_some]
    rfl

theorem follows_closes (h : a.nodes.toList = placedAll 0 (y.waiting ++ m)) (b : Bracket)
    (opening : Token) :
    Follows ((y.indexed a τ).closes limit ending b opening (roots (sizeAll y.waiting) m))
      (y.closes limit ending b opening m) := by
  rw [closes, lastStop_of_placed h b]
  let closers := y.closers.drop b.awaited.length
  let stop := close ⟨limit, ending, closers⟩ b.closer (b.unclosed opening.span.start)
    (bracket b opening m).span.stop y.rest
  exact follows_makes (m := m)
    (y := { y with closers, diagnostics := y.diagnostics ++ stop.diagnostics, rest := stop.rest })
    h b.node [] ⟨opening.span.start, stop.value⟩

end Parts

/-- A task without trees is turned to. -/
theorem fills_turns (h : a.nodes.toList = placedAll 0 y.waiting) {k : Machine.Task}
    (ht : k.trees = []) :
    Fills { y.indexed a τ with task := k.indexed (sizeAll y.waiting) } { y with task := k } := by
  refine ⟨?_, rfl⟩
  rw [State.nodes, ht, List.append_nil]
  exact h

theorem fills_enters {f : Machine.Frame} {k : Machine.Task}
    (h : a.nodes.toList = placedAll 0 (y.waiting ++ (f.trees ++ k.trees))) (rest : List Token) :
    Fills ((y.indexed a τ).enters (f.indexed (sizeAll y.waiting))
      (k.indexed (sizeAll y.waiting + sizeAll f.trees)) rest) (y.enters f k rest) := by
  refine ⟨h.trans (y.nodes_enters f k rest).symm, ?_⟩
  rw [State.filling, State.waiting_enters, sizeAll_append]
  rfl

/-- A frame without trees is left behind, in front of tokens that have not been read. -/
theorem fills_enters_bare (h : a.nodes.toList = placedAll 0 y.waiting) {f : Machine.Frame}
    {k : Machine.Task} (hf : f.trees = []) (ht : k.trees = []) (rest : List Token) :
    Fills ((y.indexed a τ).enters (f.indexed (sizeAll y.waiting))
      (k.indexed (sizeAll y.waiting + sizeAll f.trees)) rest) (y.enters f k rest) :=
  fills_enters (by rw [hf, ht, h, List.append_nil, List.append_nil]) rest

/-- A node is made of what is there, and a frame without trees waits for it. -/
theorem follows_add_enters {m : List SyntaxTree}
    (h : a.nodes.toList = placedAll 0 (y.waiting ++ m)) (kind : NodeKind) (text : Text)
    (span : Span) {f : Machine.Frame} (hf : f.trees = []) :
    Follows
      (do
        let (index, z) ← (y.indexed a τ).add kind text span (roots (sizeAll y.waiting) m)
        return z.enters (f.indexed (sizeAll y.waiting)) (.value index) y.rest)
      (y.enters f (.value (.node kind text span m)) y.rest) := by
  obtain ⟨b, hplaced, hadd⟩ := add_of_placed (y := y) (τ := τ) h kind text span
  have henters := fills_enters (y := y) (a := b) (τ := τ) (f := f)
    (k := .value (.node kind text span m)) (by rw [hplaced, hf]; rfl) y.rest
  rw [hf] at henters
  rw [hadd]
  exact henters.follows

section Tasks
variable (h : a.nodes.toList = placedAll 0 y.waiting)
include h

theorem fills_stepStatement : (y.indexed a τ).stepStatement.Fills y.stepStatement := by
  simp only [stepStatement, State.stepStatement, State.rest_indexed]
  cases named? .bind y.rest with
  | none => exact fills_turns h (k := .expression lowestPrecedence) rfl
  | some p =>
    exact fills_enters_bare h (f := .binding p.1) (k := .expression lowestPrecedence) rfl rfl p.2

theorem follows_stepExpression (least : Nat) :
    Follows ((y.indexed a τ).stepExpression limit ending least)
      (y.stepExpression limit ending least) := by
  have hdepth : (y.indexed a τ).depth = y.depth := rfl
  simp only [stepExpression, State.stepExpression, hdepth]
  split
  · exact follows_skips h (.tooDeep limit)
  · have henters := fills_enters_bare (τ := τ) (y := { y with depth := y.depth + 1 }) h
      (f := .operations least) (k := .unary) rfl rfl y.rest
    exact henters.follows

theorem fills_stepUnary : (y.indexed a τ).stepUnary.Fills y.stepUnary := by
  have henters (f : Machine.Frame) (task : Machine.Task) (hf : f.trees = []) (ht : task.trees = [])
      (rest : List Token) := fills_enters_bare (τ := τ) h hf ht rest
  simp only [stepUnary, State.stepUnary, State.rest_indexed]
  cases y.rest with
  | nil => exact henters .calls .operand rfl rfl []
  | cons t more =>
    dsimp only
    split
    · exact henters (.negate t) .unary rfl rfl more
    · exact henters .calls .operand rfl rfl (t :: more)

/-- Nothing that can be read stands here. -/
theorem follows_awaits_or_skips {t : Token} {more : List Token} (hr : y.rest = t :: more) :
    Follows
      (if (y.surroundings limit ending).awaits t then
        (y.indexed a τ).missing limit ending .missingExpression
      else (y.indexed a τ).skips limit ending (.unexpected (.token t.raw)))
      (if (y.surroundings limit ending).awaits t then
        y.reads ((y.surroundings limit ending).missing .missingExpression (t :: more))
      else
        y.reads ((y.surroundings limit ending).recover (.unexpected (.token t.raw))
          (t :: more))) := by
  rw [← hr]
  split
  · exact follows_missing h .missingExpression
  · exact follows_skips h (.unexpected (.token t.raw))

theorem follows_stepOperand :
    Follows ((y.indexed a τ).stepOperand limit ending) (y.stepOperand limit ending) := by
  have hleaf (kind : NodeKind) (text : Text) (t : Token) (more : List Token) :=
    follows_leaf (τ := τ) h kind text t more
  have hmissing : Follows ((y.indexed a τ).missing limit ending .missingExpression)
      (y.reads ((y.surroundings limit ending).missing .missingExpression y.rest)) :=
    follows_missing h .missingExpression
  simp only [stepOperand, State.stepOperand, State.rest_indexed]
  cases hr : y.rest with
  | nil =>
    rw [hr] at hmissing
    exact hmissing
  | cons t more =>
    dsimp only
    cases t.kind with
    | number => exact hleaf .number t.value t more
    | string => exact hleaf .string t.value t more
    | keyword => exact hleaf .boolean t.value t more
    | error => exact hleaf .error (SyntaxFault.invalidToken t.raw).message t more
    | identifier =>
      dsimp only
      cases named? .arrow (t :: more) with
      | none => exact hleaf .identifier t.value t more
      | some p =>
        exact (fills_enters_bare h (f := .lambda p.1) (k := .expression lowestPrecedence) rfl
          rfl p.2).follows
    | openParen =>
      let inside := { y with closers := Bracket.paren.awaited ++ y.closers }
      exact (fills_enters_bare (τ := τ) (y := inside) h (f := .group t)
        (k := .expression lowestPrecedence) rfl rfl more).follows
    | openBrace =>
      let inside := { y with closers := Bracket.brace.awaited ++ y.closers, rest := more }
      exact (fills_turns (τ := τ) (y := inside) h (k := .fields t []) rfl).follows
    | _ => exact follows_awaits_or_skips h hr

theorem follows_stepField (before : List SyntaxTree) :
    Follows ((y.indexed a τ).stepField limit ending (fieldNames before))
      (y.stepField limit ending before) := by
  simp only [stepField, State.stepField, State.rest_indexed, State.surroundings_indexed]
  cases named? .colon y.rest with
  | none =>
    simp only [noField]
    split
    · exact follows_missing h .missingFieldName
    · exact follows_skips h (.notFieldName (.ofHead y.rest))
  | some p =>
    exact (fills_enters_bare h (f := .field before p.1) (k := .expression lowestPrecedence) rfl
      rfl p.2).follows

end Tasks

theorem follows_stepFields {trees : List SyntaxTree}
    (h : a.nodes.toList = placedAll 0 (y.waiting ++ trees)) (opening : Token) :
    Follows ((y.indexed a τ).stepFields limit ending opening (roots (sizeAll y.waiting) trees)
      (fieldNames trees)) (y.stepFields limit ending opening trees) := by
  simp only [stepFields, State.stepFields, State.rest_indexed, State.surroundings_indexed]
  split
  · exact follows_closes h .brace opening
  · exact (fills_enters (f := .product opening trees) (k := .field trees)
      (by rw [h]; exact congrArg (placedAll 0 <| y.waiting ++ ·) (List.append_nil trees).symm)
      y.rest).follows

section Returns
variable {t : SyntaxTree}

theorem fills_resumeOperations (h : a.nodes.toList = placedAll 0 (y.waiting ++ [t]))
    (least : Nat) :
    Fills ((y.indexed a τ).resumeOperations least (sizeAll y.waiting + t.size - 1))
      (y.resumeOperations least t) := by
  obtain ⟨task, frames, depth, closers, rest, diagnostics, statements⟩ := y
  cases rest with
  | nil => exact ⟨h, rfl⟩
  | cons u more =>
    simp only [resumeOperations, State.resumeOperations, State.indexed]
    cases u.binaryOperator? with
    | none => exact ⟨h, rfl⟩
    | some operator =>
      dsimp only
      split
      · exact ⟨h, rfl⟩
      · exact fills_enters (f := .operation least t u) (k := .expression operator.rightLeast)
          (by rw [h]; rfl) more

theorem follows_resumeGroup (h : a.nodes.toList = placedAll 0 (y.waiting ++ [t]))
    (opening : Token) :
    Follows ((y.indexed a τ).resumeGroup limit ending opening (sizeAll y.waiting + t.size - 1))
      (y.resume limit ending t (.group opening)) := by
  simp only [resumeGroup, State.resume, leftover, State.rest_indexed, State.surroundings_indexed]
  split
  · simp only [List.append_nil]
    exact follows_closes (m := [t]) h .paren opening
  · let skipped := (y.surroundings limit ending).recover (.unexpected (.ofHead y.rest)) y.rest
    -- the node for what is skipped is added behind the expression, and the group has both
    obtain ⟨b, hplaced, hrecover⟩ := recover_of_placed limit ending
      (y := y) (τ := τ) h (.unexpected (.ofHead y.rest))
    rw [sizeAll_append] at hrecover
    rw [List.append_assoc] at hplaced
    rw [hrecover]
    exact follows_closes (m := [t, skipped.value]) (y := { y with
      diagnostics := y.diagnostics ++ skipped.diagnostics
      rest := skipped.rest }) hplaced .paren opening

theorem follows_resumeProduct (limit : Nat) (ending : Span) {trees : List SyntaxTree}
    (h : a.nodes.toList = placedAll 0 (y.waiting ++ trees)) (opening : Token) :
    Follows ((y.indexed a τ).resumeProduct limit ending opening (roots (sizeAll y.waiting) trees)
      (fieldNames trees)) (y.resumeProduct limit ending opening trees) := by
  simp only [resumeProduct, State.resumeProduct, State.rest_indexed, State.surroundings_indexed]
  split
  · exact Fills.follows ⟨h, rfl⟩
  split
  · exact Fills.follows ⟨h, rfl⟩
  · let skipped := (y.surroundings limit ending).recover (.afterField (.ofHead y.rest)) y.rest
    obtain ⟨b, hplaced, hrecover⟩ := recover_of_placed limit ending
      (y := y) (τ := τ) h (.afterField (.ofHead y.rest))
    have hroots : roots (sizeAll y.waiting) (trees ++ [skipped.value]) =
        roots (sizeAll y.waiting) trees ++ [sizeAll (y.waiting ++ trees)] := by
      rw [roots_append, sizeAll_append]
      rfl
    -- an error node is no field, so the names that have been seen are the same
    have hnames : fieldNames (trees ++ [skipped.value]) = fieldNames trees := by
      rw [fieldNames_append]
      exact List.append_nil _
    rw [List.append_assoc] at hplaced
    rw [hrecover]
    refine ⟨_, rfl, hplaced, ?_⟩
    simp only [State.filling, Task.indexed]
    exact congrArg₂ (fun indices seen => State.indexed _ b (.fields opening indices seen))
      hroots.symm hnames.symm

theorem follows_resume {f : Machine.Frame}
    (h : a.nodes.toList = placedAll 0 (y.waiting ++ (f.trees ++ [t]))) :
    Follows ((y.indexed a τ).resume limit ending (sizeAll y.waiting + sizeAll f.trees + t.size - 1)
      (f.indexed (sizeAll y.waiting))) (y.resume limit ending t f) := by
  have hnode : (y.indexed a τ).node (sizeAll y.waiting + sizeAll f.trees + t.size - 1) = .ok
      ⟨t.kind, t.text, t.span, roots (sizeAll y.waiting + sizeAll f.trees) t.children⟩ := by
    rw [← List.append_assoc] at h
    rw [← sizeAll_append]
    exact node_of_placed h
  cases f with
  | binding name =>
    simp only [resume, Frame.indexed, hnode]
    exact follows_makes (m := [t]) h .binding name.value (.cover name.span t.span)
  | negate u =>
    simp only [resume, Frame.indexed, hnode]
    exact follows_makes (m := [t]) h .unary u.value (.cover u.span t.span)
  | lambda parameter =>
    simp only [resume, Frame.indexed, hnode]
    exact follows_makes (m := [t]) h .lambda parameter.value (.cover parameter.span t.span)
  | field before name =>
    simp only [resume, Frame.indexed, hnode, State.resume, hasField_eq, decide_eq_true_eq]
    exact follows_makes (m := [t]) (y := { y with diagnostics := y.diagnostics ++ _ }) h .field
      name.value (.cover name.span t.span)
  | operations least => exact (fills_resumeOperations h least).follows
  | operation least left u =>
    have hleft := node_of_placed (y := y) (τ := τ) (l := y.waiting) (m := [t]) h
    obtain ⟨b, hplaced, hadd⟩ := add_of_placed (y := y) (τ := τ) (l := y.waiting)
      (m := [left, t]) h .binary u.value (.cover left.span t.span)
    simp only [resume, Frame.indexed, hnode, hleft]
    exact follows_add_enters (m := [left, t]) h .binary u.value (.cover left.span t.span)
      (f := .operations least) rfl
  | calls =>
    simp only [resume, Frame.indexed, State.resume, State.rest_indexed]
    split
    · exact (fills_enters (f := .call t) (k := .operand) (by rw [h]; rfl) y.rest).follows
    · exact Fills.follows ⟨h, rfl⟩
  | call function =>
    have hfunction := node_of_placed (y := y) (τ := τ) (l := y.waiting) (m := [t]) h
    simp only [resume, Frame.indexed, hnode, hfunction]
    exact follows_add_enters (m := [function, t]) h .call [] (.cover function.span t.span)
      (f := .calls) rfl
  | group opening => exact follows_resumeGroup h opening
  | product opening before =>
    have hindices : roots (sizeAll y.waiting) (before ++ [t]) =
        roots (sizeAll y.waiting) before ++ [sizeAll y.waiting + sizeAll before + t.size - 1] := by
      rw [roots_append]
      rfl
    have hseen : fieldNames (before ++ [t]) =
        fieldNames before ++ (fieldName? t.kind t.text).toList := by
      rw [fieldNames_append]
      exact congrArg _ (List.append_nil _)
    simp only [resume, Frame.indexed, hnode]
    have hproduct := follows_resumeProduct limit ending (y := y) (τ := τ) h opening
    simp only [Frame.trees, hindices, hseen] at hproduct
    exact hproduct

end Returns

section Statements
variable {t : SyntaxTree} (hframes : y.frames = [])
include hframes

/-- Behind a statement its root stands behind those of the others. -/
theorem states_indexed : (y.indexed a τ).states (sizeAll y.statements + t.size - 1) =
    { y with task := .program, statements := y.statements ++ [t] }.indexed a .program := by
  have hroots : roots 0 (y.statements ++ [t]) =
      roots 0 y.statements ++ [sizeAll y.statements + t.size - 1] := by
    rw [roots_append, Nat.zero_add]
    rfl
  simp only [states, State.indexed, hframes, hroots]
  rfl

theorem fills_program (ht : y.task = .program) (h : a.nodes.toList = placedAll 0 y.statements) :
    (y.indexed a .program).Fills y := by
  refine ⟨?_, ?_⟩
  · have hwaiting : y.waiting = y.statements := by simp [State.waiting, hframes]
    rw [State.nodes, ht, hwaiting]
    exact h.trans (congrArg _ (List.append_nil _).symm)
  · rw [State.filling, ht]
    rfl

theorem follows_finish (h : a.nodes.toList = placedAll 0 (y.statements ++ [t])) :
    Follows ((y.indexed a τ).finish limit ending (sizeAll y.statements + t.size - 1))
      (y.finish limit ending t) := by
  simp only [finish, State.finish, states_indexed hframes, State.rest_indexed]
  cases y.rest with
  | nil => exact (fills_program (by exact hframes) rfl h).follows
  | cons u more =>
    let behind : State :=
      { y with task := .program, rest := u :: more, statements := y.statements ++ [t] }
    dsimp only
    split
    · exact (fills_program (y := { behind with rest := more }) hframes rfl h).follows
    · let skipped := (behind.surroundings limit ending).recover (.afterStatement (.token u.raw))
        (u :: more)
      let beyond : State :=
        { behind with diagnostics := y.diagnostics ++ skipped.diagnostics, rest := skipped.rest }
      obtain ⟨b, hplaced, hrecover⟩ := recover_of_placed limit ending
        (y := behind) (τ := .program) h (.afterStatement (.token u.raw))
      have hstates := states_indexed (y := beyond) (a := b) (τ := .program) (t := skipped.value)
        hframes
      have hprogram := fills_program (a := b)
        (y := { beyond with statements := y.statements ++ [t] ++ [skipped.value] })
        hframes rfl hplaced
      rw [hrecover, List.append_cons y.statements t [_]]
      exact ⟨_, congrArg Except.ok hstates, hprogram⟩

end Statements

/-- Between statements nothing is added. -/
theorem step_program (ht : y.task = .program) (h : a.nodes.toList = placedAll 0 y.waiting) :
    ∃ r, (y.filling a).step limit ending = .ok r ∧ Option.Rel Fills r (y.step limit ending) := by
  obtain ⟨task, frames, depth, closers, rest, diagnostics, statements⟩ := y
  obtain rfl : task = .program := ht
  cases rest with
  | nil => exact ⟨none, rfl, .none⟩
  | cons t more =>
    refine ⟨_, rfl, .some ?_⟩
    split
    · exact fills_turns (τ := .program) (y := ⟨.program, frames, depth, closers, more, diagnostics,
        statements⟩) h (k := .program) rfl
    · exact fills_turns (τ := .program) (y := ⟨.program, frames, depth, closers, t :: more,
        diagnostics, statements⟩) h (k := .statement) rfl

/-- Step by step an arena is filled with what the machine makes. There is no misstep. -/
theorem Fills.step (limit : Nat) (ending : Span) (h : x.Fills y) :
    ∃ r, x.step limit ending = .ok r ∧ Option.Rel Fills r (y.step limit ending) := by
  have hsome {c : Except Misstep Filling} {z : State} (hc : Follows c z) :
      ∃ r, some <$> c = .ok r ∧ Option.Rel Fills r (some z) := by
    obtain ⟨v, rfl, hv⟩ := hc
    exact ⟨some v, rfl, .some hv⟩
  obtain ⟨hnodes, hx⟩ := h
  generalize x.arena = a at hnodes hx
  subst hx
  -- from here on only the arena is given: all else is what goes with the machine's state
  have htask {task : Machine.Task} (ht : y.task = task) :
      (y.filling a).task = task.indexed (sizeAll y.waiting) := congrArg (Task.indexed _) ht
  have hwaiting (ht : y.task.trees = []) : a.nodes.toList = placedAll 0 y.waiting := by
    rw [hnodes, State.nodes, ht, List.append_nil]
  cases ht : y.task with
  | program => exact step_program ht (hwaiting (congrArg _ ht))
  | statement =>
    simp only [Filling.step, State.step, htask ht, Task.indexed, ht]
    exact hsome (fills_stepStatement (hwaiting (congrArg _ ht))).follows
  | expression least =>
    simp only [Filling.step, State.step, htask ht, Task.indexed, ht]
    exact hsome (follows_stepExpression (hwaiting (congrArg _ ht)) least)
  | unary =>
    simp only [Filling.step, State.step, htask ht, Task.indexed, ht]
    exact hsome (fills_stepUnary (hwaiting (congrArg _ ht))).follows
  | operand =>
    simp only [Filling.step, State.step, htask ht, Task.indexed, ht]
    exact hsome (follows_stepOperand (hwaiting (congrArg _ ht)))
  | field before =>
    simp only [Filling.step, State.step, htask ht, Task.indexed, ht]
    exact hsome (follows_stepField (hwaiting (congrArg _ ht)) before)
  | fields opening trees =>
    rw [State.nodes, ht] at hnodes
    simp only [Filling.step, State.step, htask ht, Task.indexed, ht]
    exact hsome (follows_stepFields hnodes opening)
  | value t =>
    rw [State.nodes, ht] at hnodes
    cases hf : y.frames with
    | nil =>
      have hstatements : y.waiting = y.statements := by simp [State.waiting, hf]
      have hindexed : (y.filling a).frames = [] := congrArg (indexedFrames y.statements) hf
      rw [hstatements] at hnodes
      simp only [Filling.step, State.step, htask ht, Task.indexed, ht, hindexed, hf, hstatements]
      exact hsome (follows_finish hf hnodes)
    | cons f frames =>
      have hframe := State.waiting_of_frame hf
      have hindexed : (y.filling a).frames =
          f.indexed (sizeAll (State.waiting { y with frames })) ::
            indexedFrames y.statements frames := congrArg (indexedFrames y.statements) hf
      -- the trees of the innermost frame stand right in front of the value it is given
      rw [hframe, List.append_assoc] at hnodes
      simp only [Filling.step, State.step, htask ht, Task.indexed, ht, hindexed, hf, hframe,
        sizeAll_append]
      exact hsome (follows_resume (y := { y with frames }) hnodes)

/-- Whatever comes while an arena is filled goes with what comes in the machine. -/
theorem Fills.reaches {x' : Filling} (h : x.Fills y) (hr : Reaches limit ending x x') :
    ∃ y', Machine.Reaches limit ending y y' ∧ x'.Fills y' := by
  induction hr with
  | refl => exact ⟨y, .refl, h⟩
  | @tail v w _ hn ih =>
    obtain ⟨z, hz, hvs⟩ := ih
    obtain ⟨r, hr, hrel⟩ := hvs.step limit ending
    obtain rfl : r = some w := Except.ok.inj (hr.symm.trans hn)
    generalize hy : z.step limit ending = next at hrel
    cases hrel with
    | some hws => exact ⟨_, hz.tail hy, hws⟩

/-- For a run of the machine there is one that fills an arena. -/
theorem Fills.exists_reaches {y' : State} (h : x.Fills y) (hr : Machine.Reaches limit ending y y') :
    ∃ x', Reaches limit ending x x' ∧ x'.Fills y' := by
  induction hr with
  | refl => exact ⟨x, .refl, h⟩
  | tail _ hy ih =>
    obtain ⟨v, hv, hvs⟩ := ih
    obtain ⟨r, hr, hrel⟩ := hvs.step limit ending
    rw [hy] at hrel
    cases hrel with
    | some hs => exact ⟨_, hv.tail hr, hs⟩

theorem fills_start (ts : List Token) : (start ts).Fills (Machine.start ts) := ⟨rfl, rfl⟩

/-- With a node for the program the arena is that of the tree. -/
theorem Fills.complete (ending : Span) (h : x.Fills y) (ht : y.task = .program)
    (hframes : y.frames = []) :
    x.complete ending = .ok (y.program ending).tree.arena := by
  obtain ⟨hnodes, hx⟩ := h
  generalize x.arena = a at hnodes hx
  subst hx
  have hstatements : a.nodes.toList = placedAll 0 ([] ++ y.statements) := by
    rw [hnodes, State.nodes, State.waiting, ht, hframes]
    simp [Machine.Task.trees]
  obtain ⟨b, hplaced, hadd⟩ := add_of_placed (y := y) (τ := y.task.indexed (sizeAll y.waiting))
    hstatements .program [] ⟨.origin, ending.stop⟩
  have hlast : (y.filling a).add .program [] ⟨.origin, ending.stop⟩ (y.filling a).statements =
      _ := hadd
  have harena : b.withRoot (sizeAll ([] : List SyntaxTree) + sizeAll y.statements : Nat) =
      (y.program ending).tree.arena := by
    refine Arena.eq_of_toList_eq ?_ ?_
    · rw [toList_nodes_arena]
      exact hplaced.trans (List.append_nil _)
    · rw [root_arena]
      exact congrArg Int.ofNat (Nat.zero_add _)
  rw [Filling.complete, hlast, ← harena]
  rfl

end Filling

namespace Program

/-- The arena of a program is filled node by node, and it is the post-order of the tree. While the
parser fills it, no index is ever wrong and no node that is there is changed; with the last node the
arena is that of the program. In it the root comes last; any other node is a child of just one node,
and once; by index the nodes stand as the traversal from the root meets them, so the walk visits
each of them once, and at its index. -/
theorem arena_parse (config : Config) (tokens : List Token) :
    let first := Filling.start (significant tokens)
    ∃ (last : Filling) (arena : Arena),
      (Filling.Reaches config.maxDepth (ending tokens) first last ∧
        last.step config.maxDepth (ending tokens) = .ok none ∧
        last.complete (ending tokens) = .ok arena) ∧
      (∀ x, Filling.Reaches config.maxDepth (ending tokens) first x →
        (∃ next, x.step config.maxDepth (ending tokens) = .ok next) ∧
          x.arena.nodes.toList <+: arena.nodes.toList) ∧
      ((parse config tokens).tree.arena = arena ∧
        (parse config tokens).diagnostics = last.diagnostics) ∧
      (0 < arena.size ∧ arena.root = arena.size - 1) ∧
      (∀ i, i + 1 < arena.size → ∃ parent < arena.size, (arena.children parent).count i = 1 ∧
        ∀ other, other ≠ parent → i ∉ arena.children other) ∧
      arena.postOrder arena.root.toNat = List.range arena.size ∧
      ∃ visits, arena.walk? = some visits ∧
        (visits.map (·.index)).Perm (List.range arena.size) ∧
        ∀ v ∈ visits, arena.node? v.index = some v.node := by
  intro first
  have hfirst := Filling.fills_start (significant tokens)
  obtain ⟨y, hy, ⟨htask, hframes, hrest⟩, hprogram⟩ := reaches_last config tokens
  obtain ⟨last, hlast, hfills⟩ := hfirst.exists_reaches hy
  have hend : y.step config.maxDepth (ending tokens) = none := by
    simp only [State.step, htask, hrest]
  have hcomplete := hfills.complete (ending tokens) htask hframes
  rw [hprogram] at hcomplete
  have hdiagnostics : (parse config tokens).diagnostics = last.diagnostics := by
    rw [← hprogram, hfills.2]
    rfl
  refine ⟨last, _, ⟨hlast, ?_, hcomplete⟩, fun x hx => ?_, ⟨rfl, hdiagnostics⟩,
    postOrdered_arena _⟩
  · obtain ⟨r, hr, hrel⟩ := hfills.step config.maxDepth (ending tokens)
    rw [hend] at hrel
    cases hrel
    exact hr
  · obtain ⟨z, hz, hxs⟩ := hfirst.reaches hx
    obtain ⟨r, hr, -⟩ := hxs.step config.maxDepth (ending tokens)
    refine ⟨⟨r, hr⟩, ?_⟩
    rw [hxs.1]
    exact nodes_prefix_arena config tokens hz

end Program

end LenSyntax

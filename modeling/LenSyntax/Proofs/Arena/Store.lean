import LenSyntax.Proofs.Arena.Traversal

/-! Stores of nodes as a client fills and asks them. A node is stored with an index of its own and
with the children that it was given, whatever numbers these are, and a walk works off a stack for as
long as there is something on it: that a store is in order, and that walks come to an end, is for
the operations to see to. What they make of an empty store is what an arena holds. -/
namespace LenSyntax

namespace Store

structure Node where
  index : Nat
  kind : NodeKind
  text : Text
  span : Span
  children : List Int

/-- What a client asks for. A walk without a start is one from the root. -/
inductive Operation where
  | add (kind : NodeKind) (text : Text) (span : Span) (children : List Int)
  | setRoot (root : Int)
  | size
  | node (index : Int)
  | program
  | children (index : Int)
  | walk (start : Option Int)
  | find (kind : NodeKind)

inductive Refusal where
  | noSuchChild (e : NoSuchChild)
  | noSuchIndex
  deriving DecidableEq

inductive Answer where
  | nothing
  | number (n : Nat)
  | node (n : Node)
  | nodes (ns : List Node)
  | visits (vs : List (Nat × Node))

end Store

structure Store where
  nodes : List Store.Node
  root : Int

namespace Store

def empty : Store := ⟨[], -1⟩

/-- The node at an index; a negative index counts from the end. -/
def node? (s : Store) (index : Int) : Option Node :=
  let place := if index < 0 then s.nodes.length + index else index
  if place < 0 then none else s.nodes[place.toNat]?

def get (s : Store) (index : Int) : Except Refusal Node :=
  match s.node? index with
  | none => .error .noSuchIndex
  | some n => .ok n

/-- Looks at children one by one, up to the first that is no earlier node. -/
def check (s : Store) : List Int → Except Refusal Unit
  | [] => .ok ()
  | child :: more =>
    if 0 ≤ child ∧ child < s.nodes.length then s.check more
    else .error (.noSuchChild ⟨child⟩)

def add (s : Store) (kind : NodeKind) (text : Text) (span : Span) (children : List Int) :
    Except Refusal Answer × Store :=
  match s.check children with
  | .error e => (.error e, s)
  | .ok () =>
    let index := s.nodes.length
    (.ok (.number index), { s with nodes := s.nodes ++ [⟨index, kind, text, span, children⟩] })

/-- The nodes that a node names as its children. -/
def children (s : Store) (index : Int) : Except Refusal (List Node) := do
  let n ← s.get index
  n.children.mapM s.get

/-- A walk under way: what is on its stack, with depths, and what it has met. -/
structure Tour where
  stack : List (Nat × Int)
  met : List (Nat × Node)

namespace Tour

/-- One turn of a walk. Children are put on the stack from right to left, so that the leftmost comes
off first. -/
def turn (s : Store) (t : Tour) : Except Refusal (Option Tour) :=
  match t.stack with
  | [] => .ok none
  | (depth, index) :: stack => do
    let n ← s.get index
    return some ⟨n.children.reverse.foldl (fun stack child => (depth + 1, child) :: stack) stack,
      t.met ++ [(depth, n)]⟩

/-- How a walk ends, if it does. -/
inductive Ends (s : Store) : Tour → Except Refusal (List (Nat × Node)) → Prop
  | done {t} (h : t.turn s = .ok none) : Ends s t (.ok t.met)
  | fails {t e} (h : t.turn s = .error e) : Ends s t (.error e)
  | goes {t u r} (h : t.turn s = .ok (some u)) (hu : Ends s u r) : Ends s t r

/-- In front of a node. A negative index leads nowhere. -/
def start (index : Int) : Tour := ⟨if index < 0 then [] else [(0, index)], []⟩

theorem Ends.unique {s : Store} {t : Tour} {r r' : Except Refusal (List (Nat × Node))}
    (h : t.Ends s r) (h' : t.Ends s r') : r = r' := by
  induction h with
  | done h | fails h =>
    cases h' with
    | done h' | fails h' | goes h' => cases h.symm.trans h' <;> rfl
  | goes h _ ih =>
    cases h' with
    | done h' | fails h' => cases h.symm.trans h'
    | goes h' hu => cases h.symm.trans h'; exact ih hu

end Tour

/-- What comes of an operation: an answer or a refusal, and a store. -/
inductive Performs (s : Store) : Operation → Except Refusal Answer → Store → Prop
  | add (kind : NodeKind) (text : Text) (span : Span) (children : List Int) :
    Performs s (.add kind text span children) (s.add kind text span children).1
      (s.add kind text span children).2
  | setRoot (root : Int) : Performs s (.setRoot root) (.ok .nothing) { s with root }
  | size : Performs s .size (.ok (.number s.nodes.length)) s
  | node (index : Int) : Performs s (.node index) ((s.get index).map .node) s
  | program : Performs s .program ((s.get s.root).map .node) s
  | children (index : Int) : Performs s (.children index) ((s.children index).map .nodes) s
  | walk {start : Option Int} {r} (h : (Tour.start (start.getD s.root)).Ends s r) :
    Performs s (.walk start) (r.map .visits) s
  | find (kind : NodeKind) {r} (h : (Tour.start s.root).Ends s r) :
    Performs s (.find kind) (r.map fun vs => .nodes ((vs.map (·.2)).filter (·.kind = kind))) s

/-- What operations make of an empty store. -/
inductive Made : List Operation → Store → Prop
  | nil : Made [] empty
  | snoc {ops s op answer s'} (h : Made ops s) (hop : s.Performs op answer s') :
    Made (ops ++ [op]) s'

/-- An operation has one outcome at most. -/
theorem Performs.unique {s s₁ s₂ : Store} {op : Operation} {answer answer' : Except Refusal Answer}
    (h : s.Performs op answer s₁) (h' : s.Performs op answer' s₂) :
    answer' = answer ∧ s₂ = s₁ := by
  cases h with
  | walk h =>
    cases h' with
    | walk h' => exact ⟨by rw [h.unique h'], rfl⟩
  | find kind h =>
    cases h' with
    | find _ h' => exact ⟨by rw [h.unique h'], rfl⟩
  | _ => cases h'; exact ⟨rfl, rfl⟩

mutual

/-- The listing of a node and of all below it, the node in front. -/
inductive Lists (s : Store) : (depth : Nat) → (index : Int) → List (Nat × Node) → Prop
  | node {depth index n below} (hn : s.node? index = some n)
    (h : ListsAll s (depth + 1) n.children below) : Lists s depth index ((depth, n) :: below)

/-- The listings of several nodes one behind the other. -/
inductive ListsAll (s : Store) : (depth : Nat) → (indices : List Int) → List (Nat × Node) → Prop
  | nil {depth} : ListsAll s depth [] []
  | cons {depth index indices one more} (h : Lists s depth index one)
    (hmore : ListsAll s depth indices more) : ListsAll s depth (index :: indices) (one ++ more)

end

/-- The node at the end of a path, which takes node by node the child at some place. -/
def follow? (s : Store) : (index : Int) → (path : List Nat) → Option Node
  | index, [] => s.node? index
  | index, place :: path =>
    (s.node? index).bind fun n => n.children[place]?.bind fun child => s.follow? child path

/-- A store in which nothing can go wrong. A node has its place as index, and its children in front
of it. Each operation has one outcome and leaves all nodes as they are; nodes are added behind them,
unless a child is missing, and then nothing is. A walk that starts at a node lists it and all below
it, with one visit for each path, in the lexicographic order of the paths. What is found is what is
met on the walk from the root. -/
structure Sound (s : Store) : Prop where
  ordered : ∀ (i : Nat) n, s.nodes[i]? = some n →
    n.index = i ∧ ∀ child : Int, child ∈ n.children → 0 ≤ child ∧ child < i
  answers : ∀ op, ∃ answer s', s.Performs op answer s' ∧
    ∀ answer' s'', s.Performs op answer' s'' → answer' = answer ∧ s'' = s'
  keeps : ∀ op answer s', s.Performs op answer s' → s.nodes <+: s'.nodes
  adds : ∀ kind text span (children : List Int),
    (∀ child ∈ children, 0 ≤ child ∧ child < s.nodes.length) →
    s.Performs (.add kind text span children) (.ok (.number s.nodes.length))
      ⟨s.nodes ++ [⟨s.nodes.length, kind, text, span, children⟩], s.root⟩
  refuses : ∀ kind text span (before : List Int) (child : Int) (behind : List Int),
    (∀ child ∈ before, 0 ≤ child ∧ child < s.nodes.length) →
    ¬ (0 ≤ child ∧ child < s.nodes.length) →
    s.Performs (.add kind text span (before ++ child :: behind)) (.error (.noSuchChild ⟨child⟩)) s
  walks : ∀ start : Option Int, ∀ i < s.nodes.length, start.getD s.root = i → ∃ listing,
    s.Performs (.walk start) (.ok (.visits listing)) s ∧ s.Lists 0 i listing ∧
      ∃ paths : List (List Nat), paths.Pairwise (· < ·) ∧
        (∀ path, path ∈ paths ↔ (s.follow? i path).isSome) ∧
        listing = paths.filterMap fun path => (s.follow? i path).map (path.length, ·)
  finds : ∀ listing, s.Performs (.walk none) (.ok (.visits listing)) s → ∀ kind,
    s.Performs (.find kind) (.ok (.nodes ((listing.map (·.2)).filter (·.kind = kind)))) s

section
variable {s : Store}

theorem check_eq_ok {children : List Int}
    (h : ∀ child ∈ children, 0 ≤ child ∧ child < s.nodes.length) : s.check children = .ok () := by
  induction children with
  | nil => rfl
  | cons child children ih =>
    rw [check, if_pos (h child List.mem_cons_self)]
    exact ih fun child hc => h child (List.mem_cons_of_mem _ hc)

/-- The first child that is missing is the one that is told. -/
theorem check_eq_error {before behind : List Int} {child : Int}
    (h : ∀ child ∈ before, 0 ≤ child ∧ child < s.nodes.length)
    (hchild : ¬ (0 ≤ child ∧ child < s.nodes.length)) :
    s.check (before ++ child :: behind) = .error (.noSuchChild ⟨child⟩) := by
  induction before with
  | nil => exact if_neg hchild
  | cons c before ih =>
    rw [List.cons_append, check, if_pos (h c List.mem_cons_self)]
    exact ih fun child hc => h child (List.mem_cons_of_mem _ hc)

theorem Performs.prefix {s' : Store} {op : Operation} {answer : Except Refusal Answer}
    (h : s.Performs op answer s') : s.nodes <+: s'.nodes := by
  cases h with
  | add kind text span children =>
    simp only [Store.add]
    split
    · exact List.prefix_rfl
    · exact List.prefix_append _ _
  | _ => exact List.prefix_rfl

/-- A node that comes off the stack is met, and its children go on it in their order. -/
theorem Tour.turn_cons {depth : Nat} {index : Int} {n : Node} (hn : s.get index = .ok n)
    (stack : List (Nat × Int)) (met : List (Nat × Node)) :
    Tour.turn s ⟨(depth, index) :: stack, met⟩ =
      .ok (some ⟨n.children.map (depth + 1, ·) ++ stack, met ++ [(depth, n)]⟩) := by
  have hpush (children : List Int) :
      children.reverse.foldl (fun stack child => (depth + 1, child) :: stack) stack =
        children.map (depth + 1, ·) ++ stack := by
    rw [List.foldl_reverse]
    induction children with
    | nil => rfl
    | cons child children ih => rw [List.foldr_cons, ih, List.map_cons, List.cons_append]
  simp only [Tour.turn, hn, ← hpush]
  rfl

theorem Performs.find_of_walk {listing : List (Nat × Node)}
    (h : s.Performs (.walk none) (.ok (.visits listing)) s) (kind : NodeKind) :
    s.Performs (.find kind) (.ok (.nodes ((listing.map (·.2)).filter (·.kind = kind)))) s := by
  generalize ha : (Except.ok (Answer.visits listing) : Except Refusal Answer) = answer at h
  cases h with
  | @walk _ r h =>
    cases r with
    | error e => cases ha
    | ok vs => cases ha; exact .find kind h

end

end Store

end LenSyntax

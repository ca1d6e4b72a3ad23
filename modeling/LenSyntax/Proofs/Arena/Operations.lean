import LenSyntax.Proofs.Arena.Paths
import LenSyntax.Proofs.Arena.Store
import Mathlib.Data.List.Induction

/-! What operations make of an empty store, and what they answer. Operation by operation a store
holds what an arena holds and answers what an arena answers. So children stand in front of their
parents, which is why every walk comes to an end, and nothing that is in a store ever changes. -/
namespace LenSyntax

open Store (Operation Answer Refusal Tour)

/-- A node of an arena as a store holds it. -/
def ArenaNode.stored (index : Nat) (n : ArenaNode) : Store.Node :=
  ⟨index, n.kind, n.text, n.span, n.children.map (↑)⟩

def Visit.stored (v : Visit) : Nat × Store.Node := (v.depth, v.node.stored v.index)

namespace Arena

/-- The store of what an arena holds. -/
def store (a : Arena) : Store := ⟨a.nodes.toList.mapIdx ArenaNode.stored, a.root⟩

/-- The arena behind an operation. -/
def after (a : Arena) : Operation → Arena
  | .add kind text span children => (a.add kind text span children).toOption.getD a
  | .setRoot root => a.withRoot root
  | .size | .node _ | .program | .children _ | .walk _ | .find _ => a

/-- The place of a node whose index may count from the end. -/
def place (a : Arena) (index : Int) : Nat := (if index < 0 then a.size + index else index).toNat

/-- The nodes at some indices. -/
def storedAll (a : Arena) (indices : List Nat) : List Store.Node :=
  indices.filterMap fun index => a.nodes[index]?.map (·.stored index)

/-- What is found, or that there is nothing. -/
def found {α : Type} (answer : α → Answer) : Option α → Except Refusal Answer
  | none => .error .noSuchIndex
  | some x => .ok (answer x)

/-- What an arena answers. -/
def reply (a : Arena) : Operation → Except Refusal Answer
  | .add kind text span children =>
    match a.add kind text span children with
    | .error e => .error (.noSuchChild e)
    | .ok _ => .ok (.number a.size)
  | .setRoot _ => .ok .nothing
  | .size => .ok (.number a.size)
  | .node index => found (fun n => .node (n.stored (a.place index))) (a.node? index)
  | .program => found (fun n => .node (n.stored (a.place a.root))) (a.node? a.root)
  | .children index => found (fun n => .nodes (a.storedAll n.children)) (a.node? index)
  | .walk start =>
    found (fun vs => .visits (vs.map Visit.stored)) (a.walkFrom? (start.getD a.root))
  | .find kind => found (fun vs => .nodes (vs.map (·.stored.2))) (a.find? kind)

section
variable {a : Arena} {index : Nat}

@[simp] theorem length_nodes_store (a : Arena) : a.store.nodes.length = a.size := by
  simp [store, size]

theorem getElem?_nodes_store (a : Arena) (i : Nat) :
    a.store.nodes[i]? = a.nodes[i]?.map (·.stored i) := by
  simp [store]

theorem node?_store (a : Arena) (index : Int) :
    a.store.node? index = (a.node? index).map (·.stored (a.place index)) := by
  rw [Store.node?, node?, place, length_nodes_store]
  by_cases hneg : index < 0
  · simp only [if_pos hneg]
    by_cases hlt : (a.size : Int) + index < 0
    · rw [if_pos hlt, if_neg (by omega)]
      rfl
    · rw [if_neg hlt, if_pos (by omega), getElem?_nodes_store]
  · simp only [if_neg hneg, getElem?_nodes_store]

theorem place_natCast (a : Arena) (index : Nat) : a.place index = index := by
  rw [place, if_neg (by omega), Int.toNat_natCast]

theorem get_store (h : index < a.nodes.size) :
    a.store.get index = .ok (a.nodes[index].stored index) := by
  rw [Store.get, node?_store, node?_natCast, Array.getElem?_eq_getElem h, place_natCast]
  rfl

theorem get_store_eq_error (h : ¬ index < a.nodes.size) :
    a.store.get index = .error .noSuchIndex := by
  rw [Store.get, node?_store, node?_natCast, Array.getElem?_eq_none (Nat.le_of_not_lt h)]
  rfl

theorem map_get_store (a : Arena) (index : Int) (answer : Store.Node → Answer) :
    (a.store.get index).map answer =
      found (fun n => answer (n.stored (a.place index))) (a.node? index) := by
  rw [Store.get, node?_store]
  cases a.node? index <;> rfl

/-- Nodes that are there are got one by one. -/
theorem mapM_get_store {indices : List Nat} (h : ∀ i ∈ indices, i < a.nodes.size) :
    (indices.map ((↑) : Nat → Int)).mapM a.store.get = .ok (a.storedAll indices) := by
  induction indices with
  | nil => rfl
  | cons i indices ih =>
    have hi := h i List.mem_cons_self
    have hmore := ih fun j hj => h j (List.mem_cons_of_mem _ hj)
    have hall : a.storedAll (i :: indices) = a.nodes[i].stored i :: a.storedAll indices := by
      simp [storedAll, hi]
    rw [List.map_cons, List.mapM_cons, get_store hi, hmore, hall]
    rfl

theorem lt_of_mem_children_of_node? {place : Int} {n : ArenaNode} (h : a.node? place = some n) :
    ∀ child ∈ n.children, child < a.nodes.size := by
  have hplace : ∃ i : Nat, a.nodes[i]? = some n := by
    rw [node?] at h
    split at h
    · split at h
      · exact ⟨_, h⟩
      · cases h
    · exact ⟨_, h⟩
  obtain ⟨i, hi⟩ := hplace
  obtain ⟨hlt, rfl⟩ := Array.getElem?_eq_some_iff.1 hi
  exact fun child hc => Nat.lt_trans (a.ordered i hlt child hc) hlt

theorem map_children_store (a : Arena) (index : Int) :
    (a.store.children index).map .nodes =
      found (fun n => .nodes (a.storedAll n.children)) (a.node? index) := by
  rw [Store.children, Store.get, node?_store]
  cases h : a.node? index with
  | none => rfl
  | some n =>
    change Except.map _ ((n.children.map ((↑) : Nat → Int)).mapM a.store.get) = _
    rw [mapM_get_store (lt_of_mem_children_of_node? h)]
    rfl

/-- A node is added unless one of its children is missing, and the first such child is told. -/
theorem add_cases (a : Arena) (kind : NodeKind) (text : Text) (span : Span) (children : List Int) :
    (∃ before child behind, children = before ++ child :: behind ∧
      (∀ c ∈ before, 0 ≤ c ∧ c < (a.size : Int)) ∧ ¬ (0 ≤ child ∧ child < (a.size : Int)) ∧
      a.add kind text span children = .error ⟨child⟩) ∨
    (∀ c ∈ children, 0 ≤ c ∧ c < (a.size : Int)) ∧
      ∃ h, a.add kind text span children =
        .ok (a.push ⟨kind, text, span, children.map Int.toNat⟩ h) := by
  have hmissing (c : Int) : (c < 0 || (a.size : Int) ≤ c) = true ↔ ¬ (0 ≤ c ∧ c < a.size) := by
    simp only [Bool.or_eq_true, decide_eq_true_eq]
    omega
  unfold add
  split
  · next child hfind =>
    obtain ⟨hchild, before, behind, rfl, hbefore⟩ := List.find?_eq_some_iff_append.1 hfind
    refine .inl ⟨before, child, behind, rfl, fun c hc => ?_, (hmissing child).1 hchild, rfl⟩
    by_contra hc'
    have hthere : (c < 0 || (a.size : Int) ≤ c) = false := by simpa using hbefore c hc
    exact Bool.false_ne_true (hthere.symm.trans ((hmissing c).2 hc'))
  · next hfind =>
    have hall : ∀ c ∈ children, 0 ≤ c ∧ c < (a.size : Int) := by
      intro c hc
      by_contra hc'
      exact List.find?_eq_none.1 hfind c hc ((hmissing c).2 hc')
    refine .inr ⟨hall, fun child hc => ?_, rfl⟩
    obtain ⟨c, hmem, rfl⟩ := List.mem_map.1 hc
    have := hall c hmem
    omega

theorem store_push (a : Arena) (n : ArenaNode) (h) :
    (a.push n h).store = ⟨a.store.nodes ++ [n.stored a.size], a.root⟩ := by
  simp [store, push, size]

theorem add_store (a : Arena) (kind : NodeKind) (text : Text) (span : Span) (children : List Int) :
    a.store.add kind text span children =
      (a.reply (.add kind text span children), (a.after (.add kind text span children)).store) := by
  obtain ⟨before, child, behind, hsplit, hbefore, hchild, hadd⟩ | ⟨hall, h, hadd⟩ :=
    a.add_cases kind text span children
  · have hcheck : a.store.check children = .error (.noSuchChild ⟨child⟩) := by
      rw [hsplit]
      exact Store.check_eq_error (by simpa using hbefore) (by simpa using hchild)
    simp only [Store.add, reply, after, hcheck, hadd]
    rfl
  · have hcheck : a.store.check children = .ok () := Store.check_eq_ok (by simpa using hall)
    have hchildren : (children.map Int.toNat).map ((↑) : Nat → Int) = children := by
      rw [List.map_map]
      exact (List.map_congr_left fun c hc => Int.toNat_of_nonneg (hall c hc).1).trans
        (List.map_id children)
    simp only [Store.add, reply, after, hcheck, hadd, length_nodes_store]
    rw [Except.toOption, Option.getD_some, store_push, ArenaNode.stored, hchildren]
    rfl

/-- A walk works off its stack as the arena does. -/
theorem ends_walkStack (a : Arena) (met : Array Visit) (stack : List (Nat × Nat))
    (h : ∀ entry ∈ stack, entry.2 < a.nodes.size) :
    Tour.Ends a.store
      ⟨stack.map fun entry => (entry.1, (entry.2 : Int)), met.toList.map Visit.stored⟩
      (.ok ((a.walkStack met stack).toList.map Visit.stored)) := by
  fun_induction walkStack a met stack with
  | case1 met => exact .done rfl
  | case2 met depth index stack hindex ih =>
    have hbelow : ∀ child ∈ a.nodes[index].children, child < a.nodes.size :=
      fun child hc => Nat.lt_trans (a.ordered index hindex child hc) hindex
    apply Tour.Ends.goes _ (ih _)
    · rw [List.map_cons, Tour.turn_cons (get_store hindex)]
      simp [ArenaNode.stored, Visit.stored, Function.comp_def]
    · intro entry hentry
      obtain hentry | hentry := List.mem_append.1 hentry
      · obtain ⟨child, hc, rfl⟩ := List.mem_map.1 hentry
        exact hbelow child hc
      · exact h entry (List.mem_cons_of_mem _ hentry)
  | case3 met depth index stack hindex ih =>
    exact absurd (h _ List.mem_cons_self) hindex

/-- The walk from a node, as a store takes it. -/
theorem ends_start (a : Arena) (start : Int) :
    ∃ r, (Tour.start start).Ends a.store r ∧
      r.map .visits = found (fun vs => .visits (vs.map Visit.stored)) (a.walkFrom? start) ∧
      ∀ kind, (r.map fun vs => .nodes ((vs.map (·.2)).filter (·.kind = kind))) =
        found (fun vs => .nodes (vs.map (·.stored.2)))
          ((a.walkFrom? start).map fun vs => vs.filter (·.node.kind = kind)) := by
  by_cases hneg : start < 0
  · refine ⟨.ok [], ?_, ?_, ?_⟩
    · rw [Tour.start, if_pos hneg]
      exact .done rfl
    · rw [walkFrom?, if_pos hneg]
      rfl
    · intro kind
      rw [walkFrom?, if_pos hneg]
      rfl
  · obtain ⟨i, rfl⟩ := Int.eq_ofNat_of_zero_le (Int.not_lt.1 hneg)
    rw [Tour.start, if_neg hneg, walkFrom?, if_neg hneg, Int.toNat_natCast]
    by_cases hlt : (i : Int) < a.size
    · rw [if_pos hlt]
      have hi : ∀ entry ∈ [(0, i)], entry.2 < a.nodes.size := by
        simpa [size] using hlt
      refine ⟨_, a.ends_walkStack #[] [(0, i)] hi, rfl, fun kind => ?_⟩
      simp [found, Except.map, List.filter_map, Function.comp_def, Visit.stored, ArenaNode.stored]
    · rw [if_neg hlt]
      refine ⟨.error .noSuchIndex, .fails ?_, rfl, fun kind => rfl⟩
      have hi : ¬ i < a.nodes.size := by simpa [size] using hlt
      simp only [Tour.turn, get_store_eq_error hi]
      rfl

/-- A store that holds what an arena holds does what the arena does. -/
theorem performs_store (a : Arena) (op : Operation) :
    a.store.Performs op (a.reply op) (a.after op).store := by
  cases op with
  | add kind text span children =>
    have h := Store.Performs.add (s := a.store) kind text span children
    rwa [add_store] at h
  | setRoot root => exact .setRoot root
  | size =>
    have h := Store.Performs.size (s := a.store)
    rwa [length_nodes_store] at h
  | node index =>
    have h := Store.Performs.node (s := a.store) index
    rwa [map_get_store] at h
  | program =>
    have h := Store.Performs.program (s := a.store)
    rwa [map_get_store] at h
  | children index =>
    have h := Store.Performs.children (s := a.store) index
    rwa [map_children_store] at h
  | walk start =>
    obtain ⟨r, hends, hvisits, -⟩ := a.ends_start (start.getD a.root)
    rw [reply, ← hvisits]
    exact .walk hends
  | find kind =>
    obtain ⟨r, hends, -, hfind⟩ := a.ends_start a.root
    rw [reply, find?, walk?, ← hfind]
    exact .find kind hends

theorem listsAll_flatMap_preOrder {indices : List Nat} {depth : Nat}
    (h : ∀ i ∈ indices, a.store.Lists depth i ((a.preOrder depth i).map Visit.stored)) :
    a.store.ListsAll depth (indices.map (↑))
      ((indices.flatMap (a.preOrder depth)).map Visit.stored) := by
  induction indices with
  | nil => exact .nil
  | cons i indices ih =>
    rw [List.flatMap_cons, List.map_append]
    exact .cons (h i List.mem_cons_self) (ih fun j hj => h j (List.mem_cons_of_mem _ hj))

/-- The traversal in pre-order lists a node and all below it. -/
theorem lists_preOrder (h : index < a.nodes.size) (depth : Nat) :
    a.store.Lists depth index ((a.preOrder depth index).map Visit.stored) := by
  induction index using Nat.strongRecOn generalizing depth with
  | ind index ih =>
    have hnode : a.store.node? index = some (a.nodes[index].stored index) := by
      rw [node?_store, node?_natCast, Array.getElem?_eq_getElem h, place_natCast]
      rfl
    rw [preOrder_eq h]
    refine .node hnode (listsAll_flatMap_preOrder fun child hc => ?_)
    have hlt := a.ordered index h child hc
    exact ih child hlt (Nat.lt_trans hlt h) (depth + 1)

theorem lt_of_follow? {path : List Nat} {last : Nat} (h : a.follow? index path = some last) :
    last < a.nodes.size := by
  induction path generalizing index with
  | nil =>
    rw [follow?] at h
    split at h
    · cases h; assumption
    · cases h
  | cons place path ih =>
    obtain ⟨child, -, hchild⟩ := Option.bind_eq_some_iff.1 h
    exact ih hchild

theorem follow?_store (a : Arena) (index : Nat) (path : List Nat) :
    a.store.follow? index path =
      (a.follow? index path).bind fun last => a.nodes[last]?.map (·.stored last) := by
  induction path generalizing index with
  | nil =>
    rw [Store.follow?, node?_store, node?_natCast, place_natCast, follow?]
    split
    · rfl
    · next h => rw [Array.getElem?_eq_none (by simpa [size] using h)]; rfl
  | cons place path ih =>
    rw [Store.follow?, node?_store, node?_natCast, place_natCast, follow?]
    by_cases h : index < a.nodes.size
    · rw [Array.getElem?_eq_getElem h, children_eq h, Option.map_some, Option.bind_some,
        ArenaNode.stored, List.getElem?_map]
      cases a.nodes[index].children[place]? with
      | none => rfl
      | some child => exact ih child
    · have hnone : a.nodes[index]? = none := Array.getElem?_eq_none (Nat.le_of_not_lt h)
      simp [hnone, Arena.children]

/-- A path that leads to a node leads to what stands there. -/
theorem map_follow?_store (a : Arena) (index : Nat) (path : List Nat) :
    (a.store.follow? index path).map (path.length, ·) =
      (a.visit? 0 index path).map Visit.stored := by
  rw [follow?_store, visit?, Option.map_bind, Option.map_bind]
  simp [Function.comp_def, Visit.stored]

theorem isSome_follow?_store (a : Arena) (index : Nat) (path : List Nat) :
    (a.store.follow? index path).isSome = (a.follow? index path).isSome := by
  rw [follow?_store]
  cases h : a.follow? index path with
  | none => rfl
  | some last => simp [Array.getElem?_eq_getElem (lt_of_follow? h)]

/-- In a store that holds what an arena holds nothing can go wrong. -/
theorem sound_store (a : Arena) : a.store.Sound where
  ordered i n hn := by
    rw [getElem?_nodes_store] at hn
    obtain ⟨m, hm, rfl⟩ := Option.map_eq_some_iff.1 hn
    obtain ⟨hi, rfl⟩ := Array.getElem?_eq_some_iff.1 hm
    refine ⟨rfl, fun child hc => ?_⟩
    obtain ⟨c, hmem, rfl⟩ := List.mem_map.1 hc
    have := a.ordered i hi c hmem
    omega
  answers op := ⟨_, _, a.performs_store op, fun _ _ h => (a.performs_store op).unique h⟩
  keeps op answer s' h := h.prefix
  adds kind text span children h := by
    have hadd := Store.Performs.add (s := a.store) kind text span children
    simpa only [Store.add, Store.check_eq_ok h] using hadd
  refuses kind text span before child behind h hchild := by
    have hadd := Store.Performs.add (s := a.store) kind text span (before ++ child :: behind)
    simpa only [Store.add, Store.check_eq_error h hchild] using hadd
  walks start i hi hstart := by
    have hlt : i < a.size := by simpa using hi
    have hstart' : start.getD a.root = i := hstart
    refine ⟨(a.preOrder 0 i).map Visit.stored, ?_, lists_preOrder hlt 0, a.paths i,
      a.pairwise_paths i, fun path => ?_, ?_⟩
    · have h := a.performs_store (.walk start)
      rwa [reply, hstart', walkFrom?_eq_preOrder hlt] at h
    · rw [isSome_follow?_store]
      exact mem_paths_iff
    · simp only [map_follow?_store, preOrder_eq_filterMap_paths, List.map_filterMap]
  finds listing h := h.find_of_walk

end

end Arena

namespace Store

/-- Operations make one store of an empty one, that of the arena that they make. -/
theorem made_iff {ops : List Operation} {s : Store} :
    Made ops s ↔ s = (ops.foldl Arena.after .empty).store := by
  constructor
  · intro h
    induction h with
    | nil => rfl
    | snoc _ hop ih =>
      subst ih
      rw [List.foldl_append]
      exact ((Arena.performs_store _ _).unique hop).2
  · rintro rfl
    induction ops using List.reverseRecOn with
    | nil => exact .nil
    | append_singleton ops op ih =>
      rw [List.foldl_append]
      exact ih.snoc (Arena.performs_store _ op)

/-- Whatever operations make of an empty store, nothing can go wrong in it, and each operation
answers what it answers on the arena that the same operations make of an empty one. -/
theorem sound_of_operations (ops : List Operation) :
    let a := ops.foldl Arena.after .empty
    (∀ s, Made ops s ↔ s = a.store) ∧ a.store.Sound ∧
      ∀ op, a.store.Performs op (a.reply op) (a.after op).store :=
  ⟨fun _ => made_iff, Arena.sound_store _, Arena.performs_store _⟩

end Store

end LenSyntax

import LenSyntax.Proofs.Grammar.Agreement
import LenSyntax.Proofs.Grammar.Reading

/-! Every tree that the parser builds covers exactly the tokens that it has taken: its span starts
with the first of them and ends with the last, and the tree reads as they do. -/
namespace LenSyntax

open SyntaxTree

@[simp] theorem kept_append (ts us : List Token) : kept (ts ++ us) = kept ts ++ kept us :=
  List.filter_append _ _

theorem suffix_of_cons {all ts : List Token} {t : Token} (h : t :: ts <:+ all) : ts <:+ all :=
  (List.suffix_cons t ts).trans h

theorem Span.cover_eq {first last : Span} (hstart : first.start.offset ≤ last.start.offset)
    (hstop : first.stop.offset ≤ last.stop.offset) :
    cover first last = ⟨first.start, last.stop⟩ := by
  simp only [cover, if_pos hstart, if_pos hstop]

namespace InOrder
variable {all pre ts w post : List Token} {t : Token} {ending : Position}

theorem start_lt_of_append (h : InOrder all ending) (hall : all = pre ++ t :: post) :
    ∀ u ∈ pre, u.span.start.offset < t.span.start.offset := by
  intro u hu
  have hwide := h.wide u (by simp [hall, hu])
  have hapart := h.apart
  rw [hall, List.pairwise_append] at hapart
  have hle := hapart.2.2 u hu t List.mem_cons_self
  omega

/-- The first token from a position on is one in front of which no other qualifies. -/
theorem firstFrom_eq {has : Token → Bool} {p : Position} (hall : all = pre ++ t :: post)
    (ht : has t) (hp : p.offset ≤ t.span.start.offset)
    (hpre : ∀ u ∈ pre, has u → u.span.start.offset < p.offset) : firstFrom all has p = some t := by
  have hnone : pre.find? (fun t => has t && p.offset ≤ t.span.start.offset) = none := by
    simp only [List.find?_eq_none, Bool.and_eq_true, decide_eq_true_eq, not_and, Int.not_le]
    exact hpre
  rw [firstFrom, hall, List.find?_append, hnone]
  simp [ht, hp]

theorem firstFrom_start {has : Token → Bool} (h : InOrder all ending)
    (hall : all = pre ++ t :: post) (ht : has t) : firstFrom all has t.span.start = some t :=
  firstFrom_eq hall ht (Int.le_refl _) fun u hu _ => h.start_lt_of_append hall u hu

theorem find?_span (h : InOrder all ending) (hall : all = pre ++ t :: post) :
    all.find? (·.span = t.span) = some t := by
  have hnone : pre.find? (·.span = t.span) = none := by
    rw [List.find?_eq_none]
    intro u hu
    have hlt := h.start_lt_of_append hall u hu
    simp only [decide_eq_true_eq]
    intro hs
    rw [hs] at hlt
    exact Int.lt_irrefl _ hlt
  rw [hall, List.find?_append, hnone]
  simp

theorem find?_stop (h : InOrder all ending) (hall : all = pre ++ t :: post) {kind : TokenKind}
    (ht : t.kind = kind) :
    all.find? (fun u => u.kind = kind && u.span.stop = t.span.stop) = some t := by
  have hnone : pre.find? (fun u => u.kind = kind && u.span.stop = t.span.stop) = none := by
    rw [List.find?_eq_none]
    intro u hu
    have hapart := h.apart
    rw [hall, List.pairwise_append] at hapart
    have hle := hapart.2.2 u hu t List.mem_cons_self
    have hwide := h.wide t (by simp [hall])
    simp only [Bool.and_eq_true, decide_eq_true_eq, not_and]
    intro _ hs
    rw [hs] at hle
    omega
  rw [hall, List.find?_append, hnone]
  simp [ht]

/-- A span holds those tokens that it does not cut off on either side. -/
theorem inside_eq {span : Span} (hall : all = pre ++ w ++ post)
    (hpre : ∀ t ∈ pre, t.span.start.offset < span.start.offset)
    (hw : ∀ t ∈ w, span.start.offset ≤ t.span.start.offset ∧ t.span.stop.offset ≤ span.stop.offset)
    (hpost : ∀ t ∈ post, span.stop.offset < t.span.stop.offset) : inside all span = w := by
  have h1 : inside pre span = [] := by
    simp only [inside, List.filter_eq_nil_iff, Bool.and_eq_true, decide_eq_true_eq]
    intro t ht h
    exact Int.not_le.2 (hpre t ht) h.1
  have h2 : inside w span = w := by
    simpa [inside, List.filter_eq_self] using hw
  have h3 : inside post span = [] := by
    simp only [inside, List.filter_eq_nil_iff, Bool.and_eq_true, decide_eq_true_eq]
    intro t ht h
    exact Int.not_le.2 (hpost t ht) h.2
  have happ : inside all span = inside pre span ++ inside w span ++ inside post span := by
    simp only [inside, hall, List.filter_append]
  rw [happ, h1, h2, h3, List.nil_append, List.append_nil]

/-- No token of a run ends behind the last one. -/
theorem stop_le_getLast? {rest : List Token} {last : Token} (h : InOrder all ending)
    (hs : w ++ rest <:+ all) (hlast : w.getLast? = some last) :
    ∀ t ∈ w, t.span.stop.offset ≤ last.span.stop.offset := by
  obtain ⟨v, rfl⟩ := List.getLast?_eq_some_iff.1 hlast
  have hsub := (List.sublist_append_left (v ++ [last]) rest).trans hs.sublist
  have hwide := h.wide last (hsub.subset (by simp))
  have hapart := h.apart.sublist hsub
  rw [List.pairwise_append] at hapart
  intro t ht
  obtain ht | ht := List.mem_append.1 ht
  · exact Int.le_trans (hapart.2.2 t ht last List.mem_cons_self) (Int.le_of_lt hwide)
  · obtain rfl := List.mem_singleton.1 ht
    exact Int.le_refl _

section Here
variable {s : Surroundings} (h : InOrder all s.ending.start)
include h

theorem stop_le_here (hs : w ++ ts <:+ all) (ht : t ∈ w) :
    t.span.stop.offset ≤ (s.here ts).start.offset := by
  obtain ⟨pre, rfl⟩ := hs
  cases ts with
  | nil => exact h.stop_le t (by simp [ht])
  | cons u ts =>
    have hapart := h.apart
    rw [List.pairwise_append, List.pairwise_append] at hapart
    exact hapart.2.1.2.2 t ht u List.mem_cons_self

theorem here_le_here (hs : w ++ ts <:+ all) :
    (s.here (w ++ ts)).start.offset ≤ (s.here ts).start.offset := by
  cases w with
  | nil => exact Int.le_refl _
  | cons t w =>
    have hstop := h.stop_le_here hs List.mem_cons_self
    have hwide := h.wide t (hs.subset List.mem_cons_self)
    change t.span.start.offset ≤ _
    omega

theorem here_le_start (hs : ts <:+ all) (ht : t ∈ ts) :
    (s.here ts).start.offset ≤ t.span.start.offset := by
  obtain ⟨v, u, rfl⟩ := List.append_of_mem ht
  exact h.here_le_here (w := v) hs

end Here
end InOrder

/-- `Covers all s ts w p`: of the tokens `ts`, which are the last of `all`, the parser has taken `w`
for the tree of `p`. -/
structure Covers (all : List Token) (s : Surroundings) (ts w : List Token)
    (p : Parsed SyntaxTree) : Prop where
  split : ts = w ++ p.rest
  start : p.value.span.start = (s.here ts).start
  ordered : p.value.span.start.offset ≤ p.value.span.stop.offset
  stop_le : p.value.span.stop.offset ≤ (s.here p.rest).start.offset
  le_stop : ∀ t ∈ w, ¬ t.separates → t.span.stop.offset ≤ p.value.span.stop.offset
  reading : kept (p.value.reading all) = kept w

namespace Covers
variable {all ts more w v : List Token} {s : Surroundings} {p q : Parsed SyntaxTree}
  {value : SyntaxTree} {ds : List Diagnostic}

theorem rest_suffix (hp : Covers all s ts w p) (hs : ts <:+ all) : p.rest <:+ all :=
  (hp.split ▸ List.suffix_append w p.rest).trans hs

/-- A tree that starts with some tokens and ends with another tree covers both. -/
theorem extend (hq : Covers all s more v q) (h : InOrder all s.ending.start)
    (hs : w ++ more <:+ all) (hspan : value.span = ⟨(s.here (w ++ more)).start, q.value.span.stop⟩)
    (hr : kept (value.reading all) = kept (w ++ v)) :
    Covers all s (w ++ more) (w ++ v) ⟨value, ds, q.rest⟩ where
  split := by rw [List.append_assoc, ← hq.split]
  start := by rw [hspan]
  ordered := by
    have hle := h.here_le_here hs
    have hstart := hq.start
    have hord := hq.ordered
    rw [hstart] at hord
    rw [hspan]
    exact Int.le_trans hle hord
  stop_le := by
    rw [hspan]
    exact hq.stop_le
  le_stop := by
    intro t ht hsep
    rw [hspan]
    obtain ht | ht := List.mem_append.1 ht
    · have hle := h.stop_le_here hs ht
      have hord := hq.ordered
      rw [hq.start] at hord
      exact Int.le_trans hle hord
    · exact hq.le_stop t ht hsep
  reading := hr

/-- Two trees, the second of which starts behind the first, have a common span. -/
theorem cover_eq (hp : Covers all s ts w p) (hq : Covers all s more v q)
    (hle : (s.here p.rest).start.offset ≤ (s.here more).start.offset) :
    Span.cover p.value.span q.value.span = ⟨(s.here ts).start, q.value.span.stop⟩ := by
  have h1 := hp.ordered
  have h2 := hp.stop_le
  have h3 := hq.ordered
  rw [hq.start] at h3
  rw [Span.cover_eq (by rw [hq.start]; omega) (by omega), hp.start]

/-- A token and a tree behind it have a common span. -/
theorem token_cover_eq {t : Token} (hq : Covers all s more v q) (h : InOrder all s.ending.start)
    (hs : t :: w ++ more <:+ all) :
    Span.cover t.span q.value.span = ⟨t.span.start, q.value.span.stop⟩ := by
  have h1 := h.wide t (hs.subset List.mem_cons_self)
  have h2 := h.stop_le_here hs (List.mem_cons_self (a := t) (l := w))
  have h3 := hq.ordered
  rw [hq.start] at h3
  rw [Span.cover_eq (by rw [hq.start]; omega) (by omega)]

/-- A separator behind a tree is taken and not shown. -/
theorem pass {t : Token} {rest : List Token} (hp : Covers all s ts w p)
    (h : InOrder all s.ending.start) (hs : ts <:+ all) (hr : p.rest = t :: rest)
    (ht : t.separates) (ds : List Diagnostic) : Covers all s ts (w ++ [t]) ⟨p.value, ds, rest⟩ where
  split := by rw [hp.split, hr, List.append_assoc, List.singleton_append]
  start := hp.start
  ordered := hp.ordered
  stop_le := by
    have hle := hp.stop_le
    have hsuf := hp.rest_suffix hs
    rw [hr] at hle hsuf
    exact Int.le_trans hle (h.here_le_here (w := [t]) hsuf)
  le_stop := by
    intro u hu hsep
    obtain hu | hu := List.mem_append.1 hu
    · exact hp.le_stop u hu hsep
    · rw [List.mem_singleton.1 hu] at hsep
      exact absurd ht hsep
  reading := by
    have hread := hp.reading
    simpa [kept, ht] using hread

/-- A node for one token covers it. -/
theorem leaf {t : Token} {value : SyntaxTree} (h : InOrder all s.ending.start)
    (hs : t :: more <:+ all) (hspan : value.span = t.span) (hr : value.reading all = [t]) :
    Covers all s (t :: more) [t] ⟨value, ds, more⟩ where
  split := rfl
  start := by rw [hspan]; rfl
  ordered := by
    rw [hspan]
    exact Int.le_of_lt (h.wide t (hs.subset List.mem_cons_self))
  stop_le := by
    rw [hspan]
    exact h.stop_le_here (w := [t]) hs List.mem_cons_self
  le_stop := by
    intro u hu _
    obtain rfl := List.mem_singleton.1 hu
    exact Int.le_of_eq (by rw [hspan])
  reading := by rw [hr]

end Covers

namespace Surroundings
variable {all ts : List Token} {s : Surroundings}

/-- What is passed ends with its last token. -/
theorem exists_skip (s : Surroundings) (nesting : Nat) (stop : Position) (ts : List Token) :
    ∃ w, ts = w ++ (s.skip nesting stop ts).2 ∧
      (s.skip nesting stop ts).1 = (w.getLast?.map (·.span.stop)).getD stop := by
  induction ts generalizing nesting stop with
  | nil => exact ⟨[], rfl, rfl⟩
  | cons t ts ih =>
    simp only [skip]
    split
    · exact ⟨[], rfl, rfl⟩
    · obtain ⟨w, hw, hstop⟩ := ih (nestBehind nesting t.kind) t.span.stop
      refine ⟨t :: w, by rw [List.cons_append, ← hw], ?_⟩
      rw [hstop, List.getLast?_cons]
      cases w.getLast? <;> rfl

/-- An error node that ends with the last token passed covers those passed. -/
theorem covers_error {w rest : List Token} (h : InOrder all s.ending.start) (hs : w ++ rest <:+ all)
    (text : Text) (ds : List Diagnostic) :
    Covers all s (w ++ rest) w ⟨.node .error text ⟨(s.here (w ++ rest)).start,
      (w.getLast?.map (·.span.stop)).getD (s.here (w ++ rest)).start⟩ [], ds, rest⟩ := by
  generalize hstart : (s.here (w ++ rest)).start = start
  generalize hstop : (w.getLast?.map (·.span.stop)).getD start = stop
  have hrest : rest <:+ all := (List.suffix_append w rest).trans hs
  have hfirst : start.offset ≤ (s.here rest).start.offset := hstart ▸ h.here_le_here hs
  have hbounds : start.offset ≤ stop.offset ∧ stop.offset ≤ (s.here rest).start.offset ∧
      ∀ t ∈ w, t.span.stop.offset ≤ stop.offset := by
    cases hlast : w.getLast? with
    | none =>
      have hw := List.getLast?_eq_none_iff.1 hlast
      rw [hlast] at hstop
      subst hw hstop
      exact ⟨Int.le_refl _, hfirst, by simp⟩
    | some last =>
      rw [hlast] at hstop
      subst hstop
      have hlast' := List.mem_of_getLast? hlast
      have hmem : last ∈ w ++ rest := List.mem_append_left rest hlast'
      have hle := h.here_le_start hs hmem
      have hwide := h.wide last (hs.subset hmem)
      rw [hstart] at hle
      exact ⟨by simp only [Option.map_some, Option.getD_some]; omega,
        h.stop_le_here hs hlast', h.stop_le_getLast? hs hlast⟩
  have hin : inside all ⟨start, stop⟩ = w := by
    obtain ⟨pre, hall⟩ := hs
    rw [← List.append_assoc] at hall
    apply InOrder.inside_eq hall.symm
    · intro t ht
      have hwide := h.wide t (by simp [← hall, ht])
      have hsuf : pre ++ (w ++ rest) <:+ all := ⟨[], by rw [← hall, List.append_assoc]; rfl⟩
      have hle := h.stop_le_here hsuf ht
      rw [hstart] at hle
      exact Int.lt_of_lt_of_le hwide hle
    · intro t ht
      have hsuf : w ++ rest <:+ all := ⟨pre, by rw [← List.append_assoc, hall]⟩
      have hle := h.here_le_start hsuf (List.mem_append_left rest ht)
      rw [hstart] at hle
      exact ⟨hle, hbounds.2.2 t ht⟩
    · intro t ht
      have hle := h.here_le_start hrest ht
      have hwide := h.wide t (hrest.subset ht)
      have hstop := hbounds.2.1
      change stop.offset < _
      omega
  exact {
    split := rfl
    start := hstart.symm
    ordered := hbounds.1
    stop_le := hbounds.2.1
    le_stop := fun t ht _ => hbounds.2.2 t ht
    reading := by
      simp [SyntaxTree.reading, leading, readings, trailing, NodeKind.bracket?, hin] }

theorem covers_missing (h : InOrder all s.ending.start) (hs : ts <:+ all) (fault : SyntaxFault) :
    Covers all s ts [] (s.missing fault ts) :=
  covers_error (w := []) h hs fault.message _

theorem covers_recover (h : InOrder all s.ending.start) (hs : ts <:+ all) (fault : SyntaxFault) :
    ∃ w, Covers all s ts w (s.recover fault ts) := by
  obtain ⟨w, hw, hstop⟩ := s.exists_skip 0 (s.here ts).start ts
  refine ⟨w, ?_⟩
  have herror := covers_error h (hw ▸ hs) fault.message [.error fault.message (s.here ts)]
  rw [← hw, ← hstop] at herror
  exact herror

end Surroundings

theorem covers_noField {all ts : List Token} {s : Surroundings} (h : InOrder all s.ending.start)
    (hs : ts <:+ all) : ∃ w, Covers all s ts w (ExpressionParser.noField s ts) := by
  unfold ExpressionParser.noField
  split
  · exact ⟨[], Surroundings.covers_missing h hs _⟩
  · exact Surroundings.covers_recover h hs _

/-- A bracket the closer of which has not been taken. -/
structure StillOpen (all : List Token) (b : Bracket) (v : SyntaxTree) : Prop where
  shape : v = .node b.node [] v.span v.children
  stop : v.span.stop = innerStop all b v.span.start v.children

theorem readings_cons (all : List Token) {kind : NodeKind} (hk : kind ≠ .binary) (text : Text)
    (t : SyntaxTree) (ts : List SyntaxTree) :
    readings all kind text (t :: ts) = t.reading all ++ readings all kind text ts := by
  cases ts with
  | nil => simp [readings]
  | cons u ts => cases kind <;> simp_all [readings, between]

theorem readings_append (all : List Token) {kind : NodeKind} (hk : kind ≠ .binary) (text : Text)
    (ts us : List SyntaxTree) :
    readings all kind text (ts ++ us) = readings all kind text ts ++ readings all kind text us := by
  induction ts with
  | nil => simp [readings]
  | cons t ts ih => simp [readings_cons all hk, ih]

namespace StillOpen
variable {all : List Token} {b : Bracket} {v : SyntaxTree}

theorem isClosed_eq_false (h : StillOpen all b v) : isClosed all b v.span v.children = false := by
  simp [isClosed, ← h.stop]

/-- A bracket that ends with a closer behind its inside is closed. -/
theorem isClosed_closer {t : Token} (h : StillOpen all b v)
    (hwide : t.span.start.offset < t.span.stop.offset)
    (hle : v.span.stop.offset ≤ t.span.start.offset) :
    isClosed all b ⟨v.span.start, t.span.stop⟩ v.children = true := by
  simp only [isClosed, ← h.stop, decide_eq_true_eq]
  omega

theorem reading_eq (h : StillOpen all b v) :
    v.reading all = leading all b.node [] v.span ++ readings all b.node [] v.children := by
  have hclosed := h.isClosed_eq_false
  rw [h.shape, SyntaxTree.reading]
  cases b <;> simp [trailing, NodeKind.bracket?, hclosed]

/-- The closer of a bracket is read behind its inside. -/
theorem reading_closed {ending : Position} {pre post : List Token} {t : Token}
    (h : StillOpen all b v) (hall : InOrder all ending) (hs : all = pre ++ t :: post)
    (ht : t.kind = b.closer) (hle : v.span.stop.offset ≤ t.span.start.offset) :
    (SyntaxTree.node b.node [] ⟨v.span.start, t.span.stop⟩ v.children).reading all =
      v.reading all ++ [t] := by
  have hclosed := h.isClosed_closer (hall.wide t (by simp [hs])) hle
  have hfind := hall.find?_stop hs ht
  rw [h.reading_eq, SyntaxTree.reading]
  cases b <;> simp_all [trailing, NodeKind.bracket?, leading]

end StillOpen

/-- More trees at the end of an open product leave it open and are read behind it. -/
theorem StillOpen.adding {all : List Token} {p : Parsed SyntaxTree}
    (h : StillOpen all .brace p.value) (more : Parsed (List SyntaxTree)) :
    StillOpen all .brace (p.adding more).value ∧
      (p.adding more).value.reading all =
        p.value.reading all ++ readings all .product [] more.value := by
  have hopen : StillOpen all .brace (p.adding more).value := by
    refine ⟨rfl, ?_⟩
    have hstop := h.stop
    simp only [Parsed.adding, span_node, children_node, innerStop, List.getLast?_append] at hstop ⊢
    cases more.value.getLast? with
    | none => exact hstop
    | some t => rfl
  refine ⟨hopen, ?_⟩
  rw [hopen.reading_eq, h.reading_eq, Parsed.adding_value_children,
    readings_append all (by decide), List.append_assoc]
  rfl

namespace Covers
variable {all ts more w : List Token} {s : Surroundings} {p q : Parsed SyntaxTree}

theorem of_within {closers : List TokenKind} (hp : Covers all (s.within closers) ts w p) :
    Covers all s ts w p :=
  ⟨hp.split, hp.start, hp.ordered, hp.stop_le, hp.le_stop, hp.reading⟩

/-- A field, or what is skipped, goes on where the open product in front of it ends. -/
theorem adding (hp : Covers all s ts w p) (hopen : StillOpen all .brace p.value)
    (h : InOrder all s.ending.start) (hs : ts <:+ all) {v : List Token}
    (hq : Covers all s p.rest v q) (ds : List Diagnostic) :
    Covers all s ts (w ++ v) (p.adding ⟨[q.value], ds, q.rest⟩) := by
  have hsplit := hp.split
  subst hsplit
  apply hq.extend h hs
  · rw [hp.start]
    rfl
  · have hread := (hopen.adding ⟨[q.value], ds, q.rest⟩).2
    simp only [Parsed.adding] at hread
    rw [hread, kept_append, kept_append, hp.reading, ← hq.reading]
    simp [readings]

end Covers

/-- A bracket and its closer. -/
theorem Covers.closed {all ts w rest : List Token} {s : Surroundings} {p : Parsed SyntaxTree}
    {b : Bracket} {t : Token} (hp : Covers all s ts w p) (hopen : StillOpen all b p.value)
    (h : InOrder all s.ending.start) (hs : ts <:+ all) (hr : p.rest = t :: rest)
    (ht : t.kind = b.closer) (ds : List Diagnostic) :
    Covers all s ts (w ++ [t])
      ⟨.node b.node [] ⟨p.value.span.start, t.span.stop⟩ p.value.children, ds, rest⟩ := by
  have hrest := hp.rest_suffix hs
  have hord := hp.ordered
  have hstop := hp.stop_le
  rw [hr] at hrest hstop
  change _ ≤ t.span.start.offset at hstop
  have hwide := h.wide t (hrest.subset List.mem_cons_self)
  obtain ⟨pre, hall⟩ := hrest
  refine ⟨?_, hp.start, ?_, ?_, ?_, ?_⟩
  · rw [hp.split, hr, List.append_assoc, List.singleton_append]
  · change p.value.span.start.offset ≤ t.span.stop.offset
    omega
  · exact h.stop_le_here (w := [t]) ⟨pre, hall⟩ List.mem_cons_self
  · intro u hu hsep
    change _ ≤ t.span.stop.offset
    obtain hu | hu := List.mem_append.1 hu
    · have hle := hp.le_stop u hu hsep
      omega
    · obtain rfl := List.mem_singleton.1 hu
      exact Int.le_refl _
  · rw [hopen.reading_closed h hall.symm ht hstop, kept_append, kept_append, hp.reading]

/-- The opener of a group and the trees behind it. -/
theorem covers_group {all more v : List Token} {s : Surroundings} {q : Parsed SyntaxTree}
    (h : InOrder all s.ending.start) {t : Token} {w : List Token} (hs : t :: w ++ more <:+ all)
    (ht : t.kind = .openParen) (front : List SyntaxTree)
    (hf : kept (readings all .group [] front) = kept w) (hq : Covers all s more v q)
    (ds : List Diagnostic) :
    let value := node .group [] ⟨t.span.start, q.value.span.stop⟩ (front ++ [q.value])
    Covers all s (t :: w ++ more) (t :: w ++ v) ⟨value, ds, q.rest⟩ ∧
      StillOpen all .paren value := by
  intro value
  have hopen : StillOpen all .paren value := ⟨rfl, by simp [value, innerStop]⟩
  refine ⟨hq.extend h hs rfl ?_, hopen⟩
  obtain ⟨pre, hall⟩ := hs
  have hfind : firstFrom all (·.kind = .openParen) t.span.start = some t :=
    h.firstFrom_start hall.symm (by simp [ht])
  have hread : value.reading all = [t] ++ readings all .group [] front ++ q.value.reading all := by
    rw [hopen.reading_eq]
    simp [value, leading, hfind, readings_append, readings]
  rw [hread, kept_append, kept_append, kept_append (t :: w), hf, hq.reading]
  exact congrArg (· ++ kept v) (kept_append [t] w).symm

/-- Two operands and the operator between them. -/
theorem Covers.operation {all ts rest w v : List Token} {s : Surroundings}
    {p q : Parsed SyntaxTree} {t : Token} (hp : Covers all s ts w p)
    (h : InOrder all s.ending.start) (hs : ts <:+ all) (hr : p.rest = t :: rest)
    (ht : t.kind = .symbol) (hq : Covers all s rest v q) (ds : List Diagnostic) :
    Covers all s ts (w ++ [t] ++ v)
      ⟨.node .binary t.value (.cover p.value.span q.value.span) [p.value, q.value], ds,
        q.rest⟩ := by
  have hrest := hp.rest_suffix hs
  have hstop := hp.stop_le
  have hord := hp.ordered
  have hstart := hp.start
  rw [hr] at hrest hstop
  have hcover := hp.cover_eq hq (hr ▸ h.here_le_here (w := [t]) hrest)
  have hsplit : ts = w ++ [t] ++ rest := by rw [hp.split, hr, List.append_assoc]; rfl
  obtain ⟨pre, hpre⟩ := hs
  have hall : all = (pre ++ w) ++ t :: rest := by rw [← hpre, hsplit]; simp
  -- a separator may end behind its tree, but it is no operator
  have hfind : firstFrom all (Token.isOperator t.value) p.value.span.stop = some t := by
    apply InOrder.firstFrom_eq hall (by simp [Token.isOperator, ht]) hstop
    intro u hu hop
    have hwide := h.wide u (by rw [hall]; exact List.mem_append_left _ hu)
    obtain hu | hu := List.mem_append.1 hu
    · have hsuf : pre ++ ts <:+ all := ⟨[], by simpa using hpre⟩
      have hle := h.stop_le_here hsuf hu
      rw [← hstart] at hle
      omega
    · have hsep : ¬ u.separates := by
        simp only [Token.isOperator, Bool.and_eq_true, decide_eq_true_eq] at hop
        simp [Token.separates, hop.1]
      have hle := hp.le_stop u hu hsep
      omega
  subst hsplit
  refine hq.extend h ⟨pre, hpre⟩ hcover ?_
  have hread : (SyntaxTree.node .binary t.value (.cover p.value.span q.value.span)
      [p.value, q.value]).reading all = p.value.reading all ++ [t] ++ q.value.reading all := by
    simp [SyntaxTree.reading, leading, readings, between, trailing, NodeKind.bracket?, hfind]
  rw [hread]
  simp only [kept_append, hp.reading, hq.reading]

/-- What a part covers. Inside a bracket the closer has not been taken yet. -/
def CoversPart (all : List Token) (s : Surroundings) (ts : List Token) (p : Parsed SyntaxTree) :
    Part → Prop
  | .fields => (∃ w, Covers all s ts w p) ∧ StillOpen all .brace p.value
  | .inside b => (∃ w, Covers all s ts w p) ∧ StillOpen all b p.value
  | _ => ∃ w, Covers all s ts w p

/-- A name, a mark and a tree behind them. -/
theorem covers_named {all more v : List Token} {s : Surroundings} {q : Parsed SyntaxTree}
    (h : InOrder all s.ending.start) {t m : Token} (hs : t :: m :: more <:+ all)
    (ht : t.kind = .identifier) {mark : TokenKind} (hm : m.kind = mark) (hk : mark ≠ .identifier)
    {kind : NodeKind}
    (hkind : ∀ span, leading all kind t.value span = named all mark t.value span.start)
    (hb : kind.bracket? = none) (hq : Covers all s more v q) (ds : List Diagnostic) :
    Covers all s (t :: m :: more) (t :: m :: v)
      ⟨.node kind t.value (.cover t.span q.value.span) [q.value], ds, q.rest⟩ := by
  have hcover := hq.token_cover_eq (w := [m]) h hs
  obtain ⟨pre, hall⟩ := hs
  have hname : firstFrom all (Token.isName t.value) t.span.start = some t :=
    h.firstFrom_start hall.symm (by simp [Token.isName, ht])
  have hall' : all = (pre ++ [t]) ++ m :: more := by rw [← hall]; simp
  have hmark : firstFrom all (·.kind = mark) t.span.start = some m := by
    apply InOrder.firstFrom_eq hall' (by simp [hm])
    · exact Int.le_of_lt (h.start_lt_of_append hall' t (by simp))
    · intro u hu hu'
      obtain hu | hu := List.mem_append.1 hu
      · exact h.start_lt_of_append hall.symm u hu
      · rw [List.mem_singleton.1 hu, ht] at hu'
        exact absurd (of_decide_eq_true hu').symm hk
  refine hq.extend (w := [t, m]) h ⟨pre, hall⟩ hcover ?_
  have hread : (SyntaxTree.node kind t.value (.cover t.span q.value.span) [q.value]).reading all =
      [t, m] ++ q.value.reading all := by
    simp [SyntaxTree.reading, readings, trailing, hb, hcover, hkind, named, hname, hmark]
  rw [hread, kept_append, kept_append, hq.reading]

theorem Parses.covers {all : List Token} {depth : Nat} {s : Surroundings} {part : Part}
    {ts : List Token} {p : Parsed SyntaxTree} (h : Parses depth s part ts p)
    (hall : InOrder all s.ending.start) (hs : ts <:+ all) : CoversPart all s ts p part := by
  induction h with
  | @literal _ _ t _ kind ht =>
    refine ⟨[t], .leaf hall hs rfl ?_⟩
    obtain ⟨pre, hpre⟩ := hs
    have hfind := hall.find?_span hpre.symm
    cases hk : t.kind <;> rw [hk] at ht <;> cases ht <;>
      simp [SyntaxTree.reading, leading, readings, trailing, NodeKind.bracket?, hfind]
  | @name _ _ t _ ht _ =>
    refine ⟨[t], .leaf hall hs rfl ?_⟩
    obtain ⟨pre, hpre⟩ := hs
    have hfind := hall.find?_span hpre.symm
    simp [SyntaxTree.reading, leading, readings, trailing, NodeKind.bracket?, hfind]
  | @invalid _ s t ts ht =>
    exact ⟨[t], Surroundings.covers_error (w := [t]) hall hs _ _⟩
  | lambda ht ha body ih =>
    have hmore := suffix_of_cons (suffix_of_cons hs)
    obtain ⟨v, hq⟩ := ih hall hmore
    exact ⟨_, covers_named hall hs ht ha (by decide) (fun _ => rfl) rfl hq _⟩
  | @closed _ s b ts p t rest inside hr ht ih =>
    obtain ⟨⟨w, hp⟩, hopen⟩ := ih hall hs
    exact ⟨_, hp.of_within.closed hopen hall hs hr ht _⟩
  | @unclosed _ s b ts p inside hr ih =>
    obtain ⟨⟨w, hp⟩, hopen⟩ := ih hall hs
    have hp := hp.of_within
    refine ⟨w, hp.split, hp.start, hp.ordered, hp.stop_le, hp.le_stop, ?_⟩
    rw [← hopen.shape]
    exact hp.reading
  | missing ho hsync => exact ⟨[], Surroundings.covers_missing hall hs _⟩
  | unexpected ho hsync => exact Surroundings.covers_recover hall hs _
  | @group _ s t ts p ht body hsync ih =>
    obtain ⟨w, hp⟩ := ih hall (suffix_of_cons hs)
    obtain ⟨hgroup, hopen⟩ := covers_group (w := []) hall hs ht [] rfl hp p.diagnostics
    exact ⟨⟨_, hgroup⟩, hopen⟩
  | @leftover _ s t ts p q ht body hsync hq ih =>
    have hmore := suffix_of_cons hs
    obtain ⟨w, hp⟩ := ih hall hmore
    obtain ⟨v, hq⟩ := hq ▸ Surroundings.covers_recover hall (hp.rest_suffix hmore) _
    have hsplit := hp.split
    subst hsplit
    obtain ⟨hgroup, hopen⟩ := covers_group hall hs ht [p.value]
      (by simp [readings, hp.reading]) hq (p.diagnostics ++ q.diagnostics)
    exact ⟨⟨_, hgroup⟩, hopen⟩
  | @product _ s t ts ht =>
    have hsuf := hs
    obtain ⟨pre, hpre⟩ := hs
    have hfind : firstFrom all (·.kind = .openBrace) t.span.start = some t :=
      hall.firstFrom_start hpre.symm (by simp [ht])
    have hopen : StillOpen all .brace (node .product [] t.span []) :=
      ⟨rfl, by simp [innerStop, hfind]⟩
    refine ⟨⟨[t], .leaf hall hsuf rfl ?_⟩, hopen⟩
    rw [hopen.reading_eq]
    simp [leading, hfind, readings]
  | @comma _ s ts p q t rest before he field hr ht ihb ihf =>
    obtain ⟨⟨w, hp⟩, hopen⟩ := ihb hall hs
    have hrest := hp.rest_suffix hs
    obtain ⟨v, hq⟩ := ihf hall hrest
    have hq' := hq.pass hall hrest hr (by simp [Token.separates, ht]) q.diagnostics
    exact ⟨⟨_, hp.adding hopen hall hs hq' q.diagnostics⟩, (hopen.adding _).1⟩
  | @skip _ s ts p q r before he field hc hsync hr ihb ihf =>
    obtain ⟨⟨w, hp⟩, hopen⟩ := ihb hall hs
    have hrest := hp.rest_suffix hs
    obtain ⟨v, hq⟩ := ihf hall hrest
    obtain ⟨u, hr⟩ := hr ▸ Surroundings.covers_recover hall (hq.rest_suffix hrest) _
    have hone := hp.adding hopen hall hs hq q.diagnostics
    have hopen' := (hopen.adding ⟨[q.value], q.diagnostics, q.rest⟩).1
    have htwo := hone.adding hopen' hall hs hr r.diagnostics
    rw [Parsed.adding_adding] at htwo
    exact ⟨⟨_, htwo⟩, (hopen.adding _).1⟩
  | @lastField _ s ts p q before he field hc hsync ihb ihf =>
    obtain ⟨⟨w, hp⟩, hopen⟩ := ihb hall hs
    obtain ⟨v, hq⟩ := ihf hall (hp.rest_suffix hs)
    exact ⟨⟨_, hp.adding hopen hall hs hq q.diagnostics⟩, (hopen.adding _).1⟩
  | noField before he ih => exact ih hall hs
  | field ht hc value ih =>
    have hmore := suffix_of_cons (suffix_of_cons hs)
    obtain ⟨v, hq⟩ := ih hall hmore
    exact ⟨_, covers_named hall hs ht hc (by decide) (fun _ => rfl) rfl hq _⟩
  | notField hn => exact covers_noField hall hs
  | function operand ih => exact ih hall hs
  | @call _ s ts p q function ho argument ihf iha =>
    obtain ⟨w, hp⟩ := ihf hall hs
    obtain ⟨v, hq⟩ := iha hall (hp.rest_suffix hs)
    have hcover := hp.cover_eq hq (Int.le_refl _)
    have hsplit := hp.split
    subst hsplit
    refine ⟨_, hq.extend hall hs hcover ?_⟩
    simp [SyntaxTree.reading, leading, readings, between, trailing, NodeKind.bracket?, hp.reading,
      hq.reading]
  | application calls ho ih => exact ih hall hs
  | unary application hu ih => exact ih hall hs
  | @negate _ s t ts p ht operand ih =>
    obtain ⟨v, hq⟩ := ih hall (suffix_of_cons hs)
    have hcover := hq.token_cover_eq (w := []) hall hs
    obtain ⟨pre, hpre⟩ := hs
    have hfind : firstFrom all (Token.isOperator t.value) t.span.start = some t :=
      hall.firstFrom_start hpre.symm (by simp [Token.isOperator, Token.kind_of_isUnaryOperator ht])
    refine ⟨_, hq.extend (w := [t]) hall ⟨pre, hpre⟩ hcover ?_⟩
    have hread : (ExpressionParser.negate t p.value).reading all = [t] ++ p.value.reading all := by
      simp [ExpressionParser.negate, SyntaxTree.reading, leading, readings, trailing,
        NodeKind.bracket?, hcover, hfind]
    rw [hread, kept_append, kept_append, hq.reading]
  | first operand ih => exact ih hall hs
  | @operation _ s least ts p t rest operator q left hr ht hl right ihl ihr =>
    obtain ⟨w, hp⟩ := ihl hall hs
    have hrest := hp.rest_suffix hs
    rw [hr] at hrest
    obtain ⟨v, hq⟩ := ihr hall (suffix_of_cons hrest)
    have hsym := Token.kind_of_binaryOperator? (Option.isSome_of_mem ht)
    exact ⟨_, hp.operation hall hs hr hsym hq _⟩
  | expression operations hn ih => exact ih hall hs
  | tooDeep => exact Surroundings.covers_recover hall hs _
  | binding ht hm value ih =>
    have hmore := suffix_of_cons (suffix_of_cons hs)
    obtain ⟨v, hq⟩ := ih hall hmore
    exact ⟨_, covers_named hall hs ht hm (by decide) (fun _ => rfl) rfl hq _⟩
  | bare hn value ih => exact ih hall hs

/-- Statements read as their tokens, but for separators. -/
theorem ParsesStatements.kept_readings {all : List Token} {depth : Nat} {s : Surroundings}
    {ts : List Token} {p : Parsed (List SyntaxTree)} (h : ParsesStatements depth s ts p)
    (hall : InOrder all s.ending.start) (hs : ts <:+ all) :
    kept (readings all .program [] p.value) = kept ts := by
  have hcons := readings_cons all (show NodeKind.program ≠ .binary by decide) []
  induction h with
  | nil => rfl
  | @semicolon t ts p ht more ih =>
    rw [ih (suffix_of_cons hs)]
    simp [kept, Token.separates, ht]
  | last ht one hr =>
    obtain ⟨w, hw⟩ := one.covers hall hs
    rw [hw.split, hr, List.append_nil, ← hw.reading]
    rfl
  | @next t ts p m rest q ht one hr hm more ih =>
    obtain ⟨w, hw⟩ := one.covers hall hs
    have hrest := hr ▸ hw.rest_suffix hs
    have hmark : kept (m :: rest) = kept rest := by simp [kept, Token.separates, hm]
    rw [hw.split, hr, hcons, kept_append, kept_append, hw.reading, hmark, ih (suffix_of_cons hrest)]
  | @skip t ts p u rest r q ht one hr hu hskip more ih =>
    obtain ⟨w, hw⟩ := one.covers hall hs
    have hrest := hr ▸ hw.rest_suffix hs
    obtain ⟨v, hv⟩ := hskip ▸ Surroundings.covers_recover hall hrest _
    rw [hw.split, hr, hcons, hcons, kept_append, kept_append, kept_append, hw.reading, hv.reading,
      ih (hv.rest_suffix hrest), hv.split, kept_append]

namespace Program

/-- No token is lost, doubled or moved: but for separators, the tree of a source reads as its
tokens, each in its place. -/
theorem kept_reading_parse (config : Config) (source : Text) :
    let read := (source.tokenStream config).tokens.filter
      fun t => t.kind ≠ .comment && t.kind ≠ .endOfInput
    kept ((parse config (source.tokenStream config).tokens).tree.reading read) = kept read := by
  intro read
  have hread : significant (source.tokenStream config).tokens = read :=
    significant_eq_filter config source
  have horder := significant_inOrder config source
  rw [hread] at horder
  have hstatements := (parses_statements config.maxDepth config.maxDepth
    (.point (Position.origin.after source)) read).kept_readings horder (List.suffix_refl _)
  simpa [parse, hread, ending_tokenStream, SyntaxTree.reading, leading, trailing,
    NodeKind.bracket?] using hstatements

/-- What is skipped inside a group reads as it stands. -/
example :
    let tokens := (Text.tokenStream (.make false 2) "(1, \x7b").tokens
    (parse (.make false 2) tokens).tree.reading tokens.dropLast = tokens.dropLast := by
  decide +kernel

end Program

end LenSyntax

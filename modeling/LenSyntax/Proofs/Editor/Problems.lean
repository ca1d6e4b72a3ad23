import LenSyntax.Proofs.Diagnostic.Order
import LenSyntax.Proofs.Editor.Place
import LenSyntax.Proofs.Grammar.Coherence
import Mathlib.Data.List.Forall2

/-! What editors are shown of a text: all that is wrong with it, in order, at the places of the
offsets where it is wrong. -/
namespace LenSyntax.Editor

/-- `place.Marks text offset`: the place is on a line of the text and not behind its end, and
counting its code units back from the start of the line leads to the offset. -/
structure Place.Marks (text : Text) (offset : Int) (place : Place) : Prop where
  line : place.line < text.lines.length
  character : ∀ shown ∈ text.lines[place.line]?, place.character ≤ Text.width16 shown
  offset : (place.offset? text).map Nat.cast = some offset

/-- `p.Shows text d`: the problem says what the diagnostic says, at the places of its two ends. -/
structure Problem.Shows (text : Text) (d : Diagnostic) (p : Problem) : Prop where
  start : p.start.Marks text d.span.start.offset
  stop : p.stop.Marks text d.span.stop.offset
  ordered : p.start ≤ p.stop
  severity : p.severity = severityCode d.severity
  message : p.message = d.message
  source : p.source = sourceName

namespace Place
variable {text : Text} {p q : Place} {m n : Int}

theorem Marks.exists_offset? (h : p.Marks text n) : ∃ k : Nat, p.offset? text = some k ∧ n = k := by
  obtain ⟨k, hk, rfl⟩ := Option.map_eq_some_iff.1 h.offset
  exact ⟨k, hk, rfl⟩

theorem marks_of_offset? {k : Nat} (h : p.offset? text = some k) : p.Marks text k := by
  obtain ⟨shown, column, hline, hle, hwidth, -⟩ := offset?_eq_some_iff.1 h
  constructor
  · exact (List.getElem?_eq_some_iff.1 hline).1
  · intro other hother
    obtain rfl : shown = other := Option.some_inj.1 (hline.symm.trans hother)
    rw [← hwidth]
    exact shown.width16_take_le_width16 column
  · rw [h]
    rfl

theorem Marks.lt_iff (hp : p.Marks text m) (hq : q.Marks text n) : p < q ↔ m < n := by
  obtain ⟨k, hk, rfl⟩ := hp.exists_offset?
  obtain ⟨l, hl, rfl⟩ := hq.exists_offset?
  rw [lt_iff_offset_lt hk hl]
  omega

theorem Marks.eq_iff (hp : p.Marks text m) (hq : q.Marks text n) : p = q ↔ m = n := by
  obtain ⟨k, hk, rfl⟩ := hp.exists_offset?
  obtain ⟨l, hl, rfl⟩ := hq.exists_offset?
  constructor
  · rintro rfl
    rw [Option.some_inj.1 (hk.symm.trans hl)]
  · intro h
    obtain rfl : k = l := by omega
    exact eq_of_offset_eq hk hl

theorem Marks.le_of_le (hp : p.Marks text m) (hq : q.Marks text n) (h : m ≤ n) : p ≤ q := by
  obtain ⟨k, hk, rfl⟩ := hp.exists_offset?
  obtain ⟨l, hl, rfl⟩ := hq.exists_offset?
  exact le_of_offset_le hk hl (by omega)

end Place

theorem marks_of_place {v : Validator} {text : Text} {p : Position} {place : Place}
    (h : p.Coherent text) (hplace : Editor.place v (.ofText text) p = .ok place) :
    place.Marks text p.offset := by
  have hmarks := Place.marks_of_offset? (offset?_of_place h hplace)
  rwa [Int.toNat_of_nonneg h.offset_nonneg] at hmarks

/-- A text that has no more code units than editors take has its positions in their range. -/
theorem exists_place {v : Validator} {limit : Nat} (hv : v.Takes limit) {text : Text} {p : Position}
    (h : p.Coherent text) (hwidth : text.width16 ≤ limit) :
    ∃ place, Editor.place v (.ofText text) p = .ok place := by
  obtain ⟨line, column, shown, hline, -, hshown, -, -⟩ := h.exists_line
  have hlines : line < text.lines.length := (List.getElem?_eq_some_iff.1 hshown).1
  have hcount := text.count_le_width16 (CodePoint.ofChar '\n')
  rw [Text.lines_length] at hlines
  have hcharacter : (Layout.ofText text).character line p.column.toNat ≤ limit := by
    rw [Layout.character_of_lines hshown]
    have hstart := shown.width16_take_le_width16 (p.column.toNat - 1)
    have hline := text.width16_le_of_mem_lines (List.mem_of_getElem? hshown)
    omega
  simp only [Editor.place, hline, Int.add_sub_cancel, Int.toNat_natCast, Int.natCast_nonneg,
    if_true, hv line _ (by omega) hcharacter]
  exact ⟨_, rfl⟩

/-- What is shown of a diagnostic the positions of which agree with the text. -/
theorem shows_of_problem {v : Validator} {text : Text} {d : Diagnostic} {p : Problem}
    (h : d.span.Coherent text) (hp : problem v (.ofText text) d = .ok p) : p.Shows text d := by
  simp only [problem, bind, Except.bind] at hp
  split at hp
  · cases hp
  · next start hstart =>
    split at hp
    · cases hp
    · next stop hstop =>
      cases hp
      have hmarks := marks_of_place h.start hstart
      have hmarks' := marks_of_place h.stop hstop
      exact ⟨hmarks, hmarks', hmarks.le_of_le hmarks' h.ordered, rfl, rfl, rfl⟩

theorem forall₂_shows {v : Validator} {text : Text} {ds : List Diagnostic} {ps : List Problem}
    (h : ∀ d ∈ ds, d.span.Coherent text) (hps : problemsOf v text ds = .ok ps) :
    List.Forall₂ (fun d p => Problem.Shows text d p) ds ps := by
  rw [problemsOf] at hps
  induction ds generalizing ps with
  | nil =>
    cases hps
    exact .nil
  | cons d ds ih =>
    rw [List.mapM_cons] at hps
    simp only [bind, Except.bind] at hps
    split at hps
    · cases hps
    · next p hp =>
      split at hps
      · cases hps
      · next qs hqs =>
        cases hps
        refine .cons (shows_of_problem (h d List.mem_cons_self) hp) (ih ?_ hqs)
        exact fun e he => h e (List.mem_cons_of_mem _ he)

/-- What is shown of diagnostics in order is in order. -/
theorem pairwise_start {text : Text} {ds : List Diagnostic} {ps : List Problem}
    (h : List.Forall₂ (fun d p => Problem.Shows text d p) ds ps)
    (hds : ds.Pairwise fun d e => d.span.start.offset ≤ e.span.start.offset) :
    ps.Pairwise fun p q => p.start ≤ q.start := by
  rw [List.pairwise_iff_getElem] at *
  intro i j hi hj hij
  have hlength := h.length_eq
  have hstart := (h.get (by omega) hi).start
  have hlater := (h.get (by omega) hj).start
  exact hstart.le_of_le hlater (hds i j (by omega) (by omega) hij)

theorem exists_problemsOf {v : Validator} {limit : Nat} (hv : v.Takes limit) {text : Text}
    {ds : List Diagnostic} (h : ∀ d ∈ ds, d.span.Coherent text) (hwidth : text.width16 ≤ limit) :
    ∃ ps, problemsOf v text ds = .ok ps := by
  induction ds with
  | nil => exact ⟨[], rfl⟩
  | cons d ds ih =>
    have hd := h d List.mem_cons_self
    obtain ⟨start, hstart⟩ := exists_place hv hd.start hwidth
    obtain ⟨stop, hstop⟩ := exists_place hv hd.stop hwidth
    obtain ⟨ps, hps⟩ := ih fun e he => h e (List.mem_cons_of_mem _ he)
    rw [problemsOf] at hps
    rw [problemsOf, List.mapM_cons]
    simp only [problem, hstart, hstop, hps, bind, Except.bind]
    exact ⟨_, rfl⟩

/-- The problems that are shown of a text are all that is wrong with it, each once and in the order
of the places where they start; each place is on a line of the text and stands for the offset that
is meant, and different offsets have different places, in the same order. So it is whichever places
editors refuse, and of a text that has no more code units than they take, the problems are shown. -/
theorem problems_exact (v : Validator) (text : Text) :
    let stream := text.tokenStream .standard
    let found := stream.diagnostics ++ (Program.parse .standard stream.tokens).diagnostics
    (∀ limit, v.Takes limit → text.width16 ≤ limit → ∃ ps, problems v text = .ok ps) ∧
      (∀ ps, problems v text = .ok ps →
        (∃ ds, ds.Perm found ∧ List.Forall₂ (fun d p => Problem.Shows text d p) ds ps) ∧
          ps.Pairwise fun p q => p.start ≤ q.start) ∧
      ∀ (p q : Place) (m n : Int), p.Marks text m → q.Marks text n →
        (p < q ↔ m < n) ∧ (p = q ↔ m = n) := by
  intro stream found
  have hfound : ∀ d ∈ Diagnostics.sorted found, d.span.Coherent text := by
    intro d hd
    have hmem := (Diagnostics.sorted_perm found).mem_iff.1 hd
    exact (Report.coherent_spans .standard text).2.1 d hmem
  refine ⟨fun limit hv => exists_problemsOf hv hfound, ?_, ?_⟩
  · intro ps hps
    have hshows := forall₂_shows hfound hps
    have hsorts := Diagnostics.sorts_sorted found
    refine ⟨⟨_, hsorts.perm, hshows⟩, ?_⟩
    exact pairwise_start hshows hsorts.ordered
  · intro p q m n hp hq
    exact ⟨hp.lt_iff hq, hp.eq_iff hq⟩

/-- A lone surrogate, a carriage return and a code point of two units in front of what is wrong. -/
theorem problems_exact_surrogate :
    let v := Validator.upTo 2147483647
    let text : Text := [⟨0xD800, by decide⟩, '\r', '\n', '😀', ' ', ')']
    let stream := text.tokenStream .standard
    let found := stream.diagnostics ++ (Program.parse .standard stream.tokens).diagnostics
    let ps : List Problem :=
      [⟨⟨0, 0⟩, ⟨0, 1⟩, 1, "unexpected character '\\ud800'", sourceName⟩,
        ⟨⟨1, 0⟩, ⟨1, 2⟩, 1, "unexpected character '😀'", sourceName⟩,
        ⟨⟨1, 3⟩, ⟨1, 4⟩, 1, "expected ';' after statement, found ')'", sourceName⟩]
    v.Takes 2147483647 ∧ text.width16 ≤ 2147483647 ∧ problems v text = .ok ps ∧
      (∃ ds, ds.Perm found ∧ List.Forall₂ (fun d p => Problem.Shows text d p) ds ps) ∧
      ps.Pairwise fun p q => p.start ≤ q.start := by
  intro v text stream found ps
  have hsorted : Diagnostics.sorted found = found :=
    Diagnostics.sorted_of_pairwise (by decide +kernel)
  have hps : (problemsOf v text found).toOption = some ps := by decide +kernel
  have htakes : v.Takes 2147483647 := Validator.takes_upTo _
  have hwidth : text.width16 ≤ 2147483647 := by decide
  obtain ⟨hpublished, hexact, -⟩ := problems_exact v text
  obtain ⟨shown, hshown⟩ := hpublished _ htakes hwidth
  rw [← hsorted, show problemsOf v text (Diagnostics.sorted found) = .ok shown from hshown] at hps
  obtain rfl : shown = ps := Option.some_inj.1 hps
  exact ⟨htakes, hwidth, hshown, hexact _ hshown⟩

end LenSyntax.Editor

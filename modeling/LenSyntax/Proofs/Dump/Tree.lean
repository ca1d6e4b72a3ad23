import LenSyntax.Dump.Tree
import LenSyntax.Proofs.Text.Quoted
import LenSyntax.Proofs.Tree.Rows

/-! The dump of a tree tells all of it but the offsets of its spans. Depths are shown by indentation
and, further down, by marks; the span of a node stands behind the last space of its line, whatever
brackets, quotes and spaces there are in its text. -/
namespace LenSyntax

namespace NodeKind

theorem label_injective : Function.Injective label := by
  have hread (k : NodeKind) : all.find? (·.label = k.label) = some k := by
    cases k <;> decide
  intro k l h
  exact Option.some.inj ((hread k).symm.trans (h ▸ hread l))

theorem space_notMem_label (k : NodeKind) : CodePoint.ofChar ' ' ∉ k.label := by
  cases k <;> decide

theorem printable_label (k : NodeKind) : k.label.Printable := by
  cases k <;> exact Text.printable_of_ascii (by decide)

/-- Whether the line of a node shows its text, and stays one line: of a string it may be any, for it
is quoted. -/
def Shows : NodeKind → Text → Prop
  | program, text | call, text | group, text | product, text => text = []
  | string, _ => True
  | _, text => text.Printable

end NodeKind

namespace Row

/-- The kind of a node and what its line shows of its text. -/
def label (r : Row) : Text := ArenaNode.label ⟨r.kind, r.text, r.span, []⟩

/-- The text of a node as its line shows it, behind a space. -/
def shownText (r : Row) : Text :=
  match r.kind with
  | .program | .call | .group | .product => []
  | .string => " " ++ r.text.quoted
  | _ => " " ++ r.text

theorem label_eq (r : Row) : r.label = r.kind.label ++ r.shownText := by
  obtain ⟨depth, kind, text, span⟩ := r
  cases kind <;> simp [label, ArenaNode.label, shownText]

def withoutOffsets (r : Row) : Row := { r with span := r.span.withoutOffsets }

/-- The line of a node. -/
def line (r : Row) : Text := Dump.indent r.depth ++ r.label ++ " [" ++ r.span.label ++ "]"

theorem endsRun_shownText (r : Row) : r.shownText.EndsRun (· ≠ CodePoint.ofChar ' ') := by
  unfold shownText
  split <;> simp [Text.EndsRun, Text.ofString]

theorem printable_shownText {r : Row} (h : r.kind.Shows r.text) : r.shownText.Printable := by
  have hspace : Text.Printable " " := Text.printable_of_ascii (by decide)
  obtain ⟨depth, kind, text, span⟩ := r
  cases kind
  case program | call | group | product => simp [shownText, Text.Printable]
  case string => exact hspace.append (Text.printable_quoted text)
  all_goals exact hspace.append h

theorem text_eq_of_shownText_eq {r q : Row} (hr : r.kind.Shows r.text) (hq : q.kind.Shows q.text)
    (hkind : r.kind = q.kind) (h : r.shownText = q.shownText) : r.text = q.text := by
  obtain ⟨depth, kind, text, span⟩ := r
  obtain ⟨depth', kind', text', span'⟩ := q
  obtain rfl := hkind
  cases kind
  case program | call | group | product => exact Eq.trans hr (Eq.symm hq)
  case string => exact Text.prefixFree_quoted.injective (List.append_cancel_left h)
  all_goals exact List.append_cancel_left h

end Row

namespace Dump

theorem printable_indent (depth : Nat) : (indent depth).Printable := by
  unfold indent
  split
  · exact Text.printable_spaces _
  · have hopen : Text.Printable "[" := Text.printable_of_ascii (by decide)
    have hclose : Text.Printable "] " := Text.printable_of_ascii (by decide)
    exact (((Text.printable_spaces _).append hopen).append (Text.printable_ofNat depth)).append
      hclose

/-- What stands behind the spaces in front of a deep node. -/
def depthMark (depth : Nat) : Text :=
  if depth ≤ deepestIndent then [] else "[" ++ Text.ofNat depth ++ "] "

theorem indent_eq (depth : Nat) :
    indent depth = Text.spaces (2 * min depth deepestIndent) ++ depthMark depth := by
  unfold indent depthMark
  split
  · next h => rw [Nat.min_eq_left h, List.append_nil]
  · next h => rw [Nat.min_eq_right (Nat.le_of_not_le h), List.append_assoc, List.append_assoc,
      List.append_assoc]

section Indent
variable {d e : Nat} {t u : Text} (ht : t.EndsRun fun c => c = ' ' || c = '[')
  (hu : u.EndsRun fun c => c = ' ' || c = '[')
include ht

theorem endsRun_depthMark_append (d : Nat) :
    (depthMark d ++ t).EndsRun (· = CodePoint.ofChar ' ') := by
  unfold depthMark
  split
  · intro c hc
    exact (Bool.or_eq_false_iff.1 (ht c hc)).1
  · simp [Text.EndsRun, Text.ofString]

include hu

theorem depthMark_append_inj (hmin : min d deepestIndent = min e deepestIndent)
    (h : depthMark d ++ t = depthMark e ++ u) : d = e ∧ t = u := by
  have hopen {v w : Text} (hw : w.EndsRun fun c => c = ' ' || c = '[') :
      CodePoint.ofChar '[' :: v ≠ w := by
    rintro rfl
    exact absurd (hw _ rfl) (by decide)
  have hcons (d : Nat) (t : Text) :
      "[" ++ Text.ofNat d ++ "] " ++ t = CodePoint.ofChar '[' ::
        (Text.ofNat d ++ CodePoint.ofChar ']' :: CodePoint.ofChar ' ' :: t) := by
    rw [List.append_assoc, List.append_assoc]
    rfl
  unfold depthMark at h
  split at h
  · next hd =>
    split at h
    · next he => exact ⟨by omega, h⟩
    · rw [hcons] at h
      exact absurd h.symm (hopen ht)
  · next hd =>
    split at h
    · rw [hcons] at h
      exact absurd h (hopen hu)
    · have hends (t : Text) : Text.EndsRun CodePoint.isDigit (CodePoint.ofChar ']' :: t) := by
        simp [Text.EndsRun, CodePoint.isDigit]
      rw [hcons, hcons] at h
      obtain ⟨hdepth, hback⟩ :=
        Text.ofNat_append_inj (hends _) (hends _) (List.cons.inj h).2
      exact ⟨hdepth, (List.cons.inj (List.cons.inj hback).2).2⟩

/-- The depth can be told from the spaces and the mark behind them, if what follows starts neither
with a space nor with a bracket. -/
theorem indent_append_inj (h : indent d ++ t = indent e ++ u) : d = e ∧ t = u := by
  rw [indent_eq, indent_eq, List.append_assoc, List.append_assoc] at h
  obtain ⟨hspaces, hback⟩ := Text.run_append_inj (p := (· = CodePoint.ofChar ' '))
    (by simp [Text.spaces]) (by simp [Text.spaces])
    (endsRun_depthMark_append ht d) (endsRun_depthMark_append hu e) h
  have hwidth := congrArg List.length hspaces
  simp only [Text.spaces, List.length_replicate] at hwidth
  exact depthMark_append_inj ht hu (by omega) hback

end Indent

end Dump

namespace Row

/-- The line of a node goes on with a letter behind its indentation. -/
theorem endsRun_label (r : Row) : r.label.EndsRun fun c => c = ' ' || c = '[' := by
  obtain ⟨c, w, hlabel, hc⟩ : ∃ c w, r.kind.label = c :: w ∧ (c = ' ' || c = '[') = false := by
    cases r.kind <;> exact ⟨_, _, rfl, by decide⟩
  rw [label_eq, hlabel]
  simpa [Text.EndsRun] using hc

theorem printable_line {r : Row} (h : r.kind.Shows r.text) : r.line.Printable := by
  have hlabel : r.label.Printable := by
    rw [label_eq]
    exact r.kind.printable_label.append (printable_shownText h)
  have hopen : Text.Printable " [" := Text.printable_of_ascii (by decide)
  have hclose : Text.Printable "]" := Text.printable_of_ascii (by decide)
  exact ((((Dump.printable_indent r.depth).append hlabel).append hopen).append
    r.span.printable_label).append hclose

/-- The line of a node shows its depth, its kind, its text and its span without the offsets. -/
theorem line_eq_iff {r q : Row} (hr : r.kind.Shows r.text) (hq : q.kind.Shows q.text) :
    r.line = q.line ↔ r.withoutOffsets = q.withoutOffsets := by
  constructor
  · intro h
    -- the span stands behind the last space, whatever the text in front of it is
    have hcut (r : Row) : r.line = Dump.indent r.depth ++ r.label ++
        CodePoint.ofChar ' ' :: (CodePoint.ofChar '[' :: (r.span.label ++ "]")) := by
      rw [line, List.append_assoc _ _ ("]" : Text), List.append_assoc _ (" [" : Text)]
      rfl
    have hspace (r : Row) :
        CodePoint.ofChar ' ' ∉ CodePoint.ofChar '[' :: (r.span.label ++ "]") := by
      simp [r.span.space_notMem_label, Text.ofString]
    rw [hcut, hcut] at h
    obtain ⟨hfront, hback⟩ := Text.append_cons_inj_last (hspace r) (hspace q) h
    have hspan := Span.label_eq_iff.1 (List.append_cancel_right (List.cons.inj hback).2)
    obtain ⟨hdepth, hlabel⟩ := Dump.indent_append_inj r.endsRun_label q.endsRun_label hfront
    rw [label_eq, label_eq] at hlabel
    obtain ⟨hname, hshown⟩ := Text.run_append_inj (p := (· ≠ CodePoint.ofChar ' '))
      (fun c hc => by simpa using ne_of_mem_of_not_mem hc r.kind.space_notMem_label)
      (fun c hc => by simpa using ne_of_mem_of_not_mem hc q.kind.space_notMem_label)
      r.endsRun_shownText q.endsRun_shownText hlabel
    have hkind := NodeKind.label_injective hname
    have htext := text_eq_of_shownText_eq hr hq hkind hshown
    rw [withoutOffsets, withoutOffsets, hdepth, hkind, htext, hspan]
  · intro h
    have hline (r : Row) : r.line = r.withoutOffsets.line := rfl
    rw [hline, h, ← hline]

end Row

namespace SyntaxTree

/-- A tree whose spans show no offsets. -/
def withoutOffsets (t : SyntaxTree) : SyntaxTree := t.respan Span.withoutOffsets

/-- A tree all of whose texts can be told from a dump. -/
def Legible (t : SyntaxTree) : Prop := ∀ n ∈ t.nodes, n.kind.Shows n.text

theorem dump_arena (t : SyntaxTree) :
    Dump.arena? t.arena = some (Text.unlines ((t.rows 0).map Row.line)) := by
  obtain ⟨visits, hwalk, hrows⟩ := t.walk?_arena
  have hline : Dump.visit = Row.line ∘ Visit.row := rfl
  rw [Dump.arena?, hwalk, Option.map_some, Dump.visits, hline, ← List.map_map, hrows]

section Legible
variable {t u : SyntaxTree} (ht : t.Legible)
include ht

theorem Legible.shows {r : Row} (hr : r ∈ t.rows 0) : r.kind.Shows r.text := by
  obtain ⟨n, hn, hkind, htext⟩ := exists_node_of_mem_rows t hr
  rw [← hkind, ← htext]
  exact ht n hn

/-- The lines of a legible tree hold nothing unprintable. -/
theorem Legible.printable_lines : ∀ line ∈ (t.rows 0).map Row.line, line.Printable := by
  intro line hline
  obtain ⟨r, hr, rfl⟩ := List.mem_map.1 hline
  exact Row.printable_line (ht.shows hr)

/-- The dumps of legible trees show all of them but their offsets. -/
theorem Legible.dump_arena_eq_iff (hu : u.Legible) :
    Dump.arena? t.arena = Dump.arena? u.arena ↔ t.withoutOffsets = u.withoutOffsets := by
  have hrows : (t.rows 0).map Row.line = (u.rows 0).map Row.line ↔
      (t.rows 0).map Row.withoutOffsets = (u.rows 0).map Row.withoutOffsets := by
    rw [List.ext_getElem_iff, List.ext_getElem_iff]
    simp only [List.length_map, List.getElem_map]
    exact and_congr_right fun _ => forall_congr' fun i => forall_congr' fun hi =>
      forall_congr' fun hj =>
        Row.line_eq_iff (ht.shows (List.getElem_mem hi)) (hu.shows (List.getElem_mem hj))
  have hwithout (t : SyntaxTree) : t.withoutOffsets.rows 0 = (t.rows 0).map Row.withoutOffsets :=
    rows_respan Span.withoutOffsets 0 t
  have hlines {t : SyntaxTree} (ht : t.Legible) :
      ∀ line ∈ (t.rows 0).map Row.line, CodePoint.ofChar '\n' ∉ line :=
    fun line hline => (ht.printable_lines line hline).lineFeed_notMem
  rw [dump_arena, dump_arena, Option.some_inj, Text.unlines_inj (hlines ht) (hlines hu), hrows,
    ← hwithout, ← hwithout, (rows_injective 0).eq_iff]

end Legible

end SyntaxTree

end LenSyntax

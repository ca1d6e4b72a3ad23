import LenSyntax.Diagnostic.Basic
import Mathlib.Data.List.Basic

/-! The order of the diagnostics of a report: by the offset at which they start, and as they were
found where they start together. -/
namespace LenSyntax.Diagnostics

/-- `Sorts found shown`: what was found is shown in the order of the starts, each thing once, and
what starts at one offset stays in the order in which it was found. -/
structure Sorts (found shown : List Diagnostic) : Prop where
  perm : shown.Perm found
  ordered : shown.Pairwise fun d e => d.span.start.offset ≤ e.span.start.offset
  stable : ∀ offset : Int, shown.filter (·.span.start.offset = offset) =
    found.filter (·.span.start.offset = offset)

theorem sorted_perm (ds : List Diagnostic) : (sorted ds).Perm ds := List.mergeSort_perm ds _

/-- What is found in order is shown as it was found. -/
theorem sorted_of_pairwise {ds : List Diagnostic}
    (h : ds.Pairwise fun d e => d.span.start.offset ≤ e.span.start.offset) : sorted ds = ds :=
  List.mergeSort_of_pairwise (h.imp fun hle => decide_eq_true hle)

theorem sorts_sorted (ds : List Diagnostic) : Sorts ds (sorted ds) := by
  have htrans : ∀ a b c : Diagnostic, decide (a.span.start.offset ≤ b.span.start.offset) = true →
      decide (b.span.start.offset ≤ c.span.start.offset) = true →
      decide (a.span.start.offset ≤ c.span.start.offset) = true := by
    intro a b c hab hbc
    simp only [decide_eq_true_eq] at *
    omega
  have htotal : ∀ a b : Diagnostic, (decide (a.span.start.offset ≤ b.span.start.offset) ||
      decide (b.span.start.offset ≤ a.span.start.offset)) = true := by
    intro a b
    simp only [Bool.or_eq_true, decide_eq_true_eq]
    omega
  constructor
  · exact sorted_perm ds
  · exact (List.pairwise_mergeSort htrans htotal ds).imp fun h => by simpa using h
  · intro offset
    -- what starts at one offset is in order as it stands, so sorting leaves it as a sublist, and
    -- nothing is added to it
    have hsub : (ds.filter (·.span.start.offset = offset)).Sublist (sorted ds) := by
      refine List.sublist_mergeSort htrans htotal ?_ List.filter_sublist
      apply List.pairwise_of_forall_mem_list
      intro a ha b hb
      simp only [List.mem_filter, decide_eq_true_eq] at *
      omega
    have hfilter := hsub.filter (·.span.start.offset = offset)
    rw [List.filter_filter] at hfilter
    simp only [Bool.and_self] at hfilter
    exact (hfilter.eq_of_length ((sorted_perm ds).filter _).length_eq.symm).symm

end LenSyntax.Diagnostics

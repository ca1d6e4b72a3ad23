import LenSyntax.Proofs.Diagnostic.Order
import LenSyntax.Proofs.Grammar.Coherence
import LenSyntax.Proofs.Report.Wording

/-! Reports of which a stage has failed. What the stages in front of it have finished is kept, and
the failure is told behind all that they have found, once. -/
namespace LenSyntax

namespace Stage

/-- The place of a stage among the others. -/
def rank : Stage → Nat
  | tokenize => 0
  | dumpTokens => 1
  | parse => 2
  | dumpArena => 3

instance : LT Stage := ⟨fun a b => a.rank < b.rank⟩

instance (a b : Stage) : Decidable (a < b) := inferInstanceAs (Decidable (a.rank < b.rank))

end Stage

namespace Report

/-- What has been found in a source before a stage. -/
def foundBefore (config : Config) (source : Text) (stage : Stage) : List Diagnostic :=
  let stream := source.tokenStream config
  (if .tokenize < stage then stream.diagnostics else []) ++
    if .parse < stage then (Program.parse config stream.tokens).diagnostics else []

theorem worded_foundBefore (config : Config) (source : Text) (stage : Stage) :
    WordedAll (foundBefore config source stage) := by
  refine WordedAll.append ?_ ?_
  · split
    · exact Text.worded_tokenStream config source
    · exact List.forall_mem_nil _
  · split
    · exact Program.worded_parse config _
    · exact List.forall_mem_nil _

theorem diagnostics_failing (config : Config) (source : Text) (stage : Stage) (message : Text) :
    (ofStages (.failing stage message) config source).diagnostics =
      Diagnostics.sorted (foundBefore config source stage ++ [internalError source message]) := by
  cases stage with
  | tokenize => rfl
  | dumpTokens => rw [foundBefore, if_pos (by decide), if_neg (by decide), List.append_nil]; rfl
  | parse => rw [foundBefore, if_pos (by decide), if_neg (by decide), List.append_nil]; rfl
  | dumpArena => rw [foundBefore, if_pos (by decide), if_pos (by decide)]; rfl

/-- What a report shows once, whichever stage fails, of all that reads like a failure. -/
theorem filter_failure_of_sorts {config : Config} {source message : Text} {stage : Stage}
    {shown : List Diagnostic}
    (h : Diagnostics.Sorts (foundBefore config source stage ++ [internalError source message])
      shown) :
    shown.filter (fun d => Text.ofString "internal error: " <+: d.message) =
      [internalError source message] := by
  have hfound : (foundBefore config source stage).filter
      (fun d => Text.ofString "internal error: " <+: d.message) = [] := by
    rw [List.filter_eq_nil_iff]
    intro d hd
    simpa using (worded_foundBefore config source stage d hd).not_failure
  have hfailure : Text.ofString "internal error: " <+: (internalError source message).message :=
    List.prefix_append _ _
  have hperm := h.perm.filter fun d => Text.ofString "internal error: " <+: d.message
  rw [List.filter_append, hfound, List.nil_append, List.filter_singleton,
    decide_eq_true hfailure] at hperm
  exact List.perm_singleton.1 hperm

/-- If a stage fails, the dump of the tokens is there if it was finished, the dump of the tree is
not, and the diagnostics are those found before, with the failure as the last of them, in order.
Nothing else reads like a failure, and the failure spans the source up to where its tokens end. -/
theorem ofStages_failing (config : Config) (source : Text) (stage : Stage) (message : Text) :
    let stream := source.tokenStream config
    let report := ofStages (.failing stage message) config source
    let failure := internalError source message
    report.tokenDump = (if .dumpTokens < stage then (of config source).tokenDump else []) ∧
      report.treeDump = [] ∧
      Diagnostics.Sorts (foundBefore config source stage ++ [failure]) report.diagnostics ∧
      report.diagnostics.filter (fun d => Text.ofString "internal error: " <+: d.message) =
        [failure] ∧
      failure.severity = .error ∧ failure.message = "internal error: " ++ message ∧
      failure.span.start = ⟨1, 1, 0⟩ ∧ stream.tokens.getLast? = some (.endAt failure.span.stop) ∧
      (Stages.failing stage message).tokenDump config source = report.tokenDump := by
  intro stream report failure
  have hsorts : Diagnostics.Sorts (foundBefore config source stage ++ [failure])
      report.diagnostics := by
    rw [show report.diagnostics = _ from diagnostics_failing config source stage message]
    exact Diagnostics.sorts_sorted _
  refine ⟨?_, ?_, hsorts, filter_failure_of_sorts hsorts, rfl, rfl, rfl, ?_, ?_⟩
  · cases stage <;> rfl
  · cases stage <;> rfl
  · change _ = some (Token.endAt (Position.behind source))
    rw [Text.tokenStream_tokens, List.getLast?_concat, Position.behind_eq_after]
  · cases stage <;> rfl

end Report

end LenSyntax

import LenSyntax.Command.Run

/-! From arguments to what the command does: the options that come out of arguments and files, and
what is planned with them. -/
namespace LenSyntax.Command

namespace Options
variable {capacity : Toml.Capacity} {files : Files} {a : Arguments} {o : Options}

/-- Options come from arguments with usable settings; they show at least one section. -/
theorem ofArguments_eq_ok (h : ofArguments capacity files a = .ok o) :
    (∃ table, loadSettings capacity files (settingsPath a) = .ok table) ∧ a.maxDepth ≠ some none ∧
      o.input = inputPath a.input ∧ o.watch = a.watch ∧ (o.showTokens || o.showTree) = true := by
  simp only [ofArguments, bind, Except.bind] at h
  split at h
  · cases h
  · next table htable =>
    have hshown : ((a.tokens || !a.ast) || (a.ast || !a.tokens)) = true := by
      cases a.tokens <;> cases a.ast <;> rfl
    cases hdepth : a.maxDepth with
    | none =>
      rw [hdepth] at h
      cases h
      exact ⟨⟨table, htable⟩, by simp, rfl, rfl, hshown⟩
    | some depth =>
      cases depth with
      | none => rw [hdepth] at h; cases h
      | some n =>
        rw [hdepth] at h
        cases h
        exact ⟨⟨table, htable⟩, by simp, rfl, rfl, hshown⟩

end Options

section
variable {capacity : Toml.Capacity} {words : List Text} {files : Files} {o : Options} {p : Path}
  {input : Bytes}

/-- What is watched is an input file, with options that come from the arguments. -/
theorem of_plan_eq_watch (h : plan capacity words files = .watch o p) :
    o.input = some p ∧ (o.showTokens || o.showTree) = true := by
  unfold plan at h
  split at h
  · cases h
  · cases h
  · next a _ =>
    split at h
    · cases h
    · cases h
    · cases h
    · next ho =>
      split at h
      · split at h
        · cases h
        · next hinput =>
          cases h
          exact ⟨hinput, (Options.ofArguments_eq_ok ho).2.2.2.2⟩
      · cases h

/-- What is planned to be done once is done once. -/
theorem run_of_plan_eq_once (h : plan capacity words files = .once o) :
    run capacity words files input = once o files input := by
  simp only [run, session, h, List.foldl_cons, List.foldl_nil]
  rfl

end

end LenSyntax.Command

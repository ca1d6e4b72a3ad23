import LenSyntax.Proofs.Grammar.Depth
import LenSyntax.Proofs.Machine.Balance
import LenSyntax.Proofs.Machine.Simulation

/-! The machine on whole programs. It comes to an end with the program that is parsed, so what
holds of all its states holds at every moment of parsing: no more expressions are open than the
depth limit allows, and behind each statement the books are closed. -/
namespace LenSyntax

open Machine

namespace Machine.State

/-- A state behind more statements. -/
def stating (x : State) (ts : List SyntaxTree) : State :=
  { x with statements := x.statements ++ ts }

theorem stating_append_reporting_append (x : State) (ts us : List SyntaxTree)
    (ds es : List Diagnostic) :
    (((x.stating ts).reporting ds).stating us).reporting es =
      (x.stating (ts ++ us)).reporting (ds ++ es) := by
  simp only [stating, reporting, List.append_assoc]

/-- The program of a state in which nothing is left to do. -/
def program (ending : Span) (x : State) : Program :=
  ⟨.node .program [] ⟨.origin, ending.stop⟩ x.statements, x.diagnostics⟩

end Machine.State

namespace Machine

section Statement
variable {x : State} {depth : Nat} {s : Surroundings} {t : Token} {ts : List Token}
  {p : Parsed SyntaxTree}

theorem reaches_statement (hx : x.Fits depth s) (ht : t.kind ≠ .semicolon)
    (one : Parses depth s .statement (t :: ts) p) :
    Reaches s.limit s.ending (x.facing .program (t :: ts)) (x.reads p) := by
  have hstep : (x.facing .program (t :: ts)).step s.limit s.ending =
      some (x.facing .statement (t :: ts)) := by
    simp only [State.step, State.facing, if_neg ht]
  exact .head hstep (one.simulates x hx)

/-- A value that no frame waits for is that of a statement. -/
theorem step_finish (hframes : x.frames = []) (p : Parsed SyntaxTree) :
    (x.reads p).step s.limit s.ending = some ((x.reads p).finish s.limit s.ending p.value) := by
  obtain ⟨task, frames, depth, closers, rest, diagnostics, statements⟩ := x
  obtain rfl : frames = [] := hframes
  rfl

theorem State.finish_eq_skip {u : Token} {rest : List Token} (hr : x.rest = u :: rest)
    (hu : u.kind ≠ .semicolon) (hs : x.surroundings s.limit s.ending = s) (t : SyntaxTree) :
    let skipped := s.recover (.afterStatement (.token u.raw)) (u :: rest)
    x.finish s.limit s.ending t =
      ((x.stating [t, skipped.value]).reporting skipped.diagnostics).facing .program
        skipped.rest := by
  simp only [finish, hr, if_neg hu, hs]
  rfl

end Statement

end Machine

/-- The statements of a program are read one after another, in no frame. -/
theorem ParsesStatements.reaches {depth : Nat} {s : Surroundings} {ts : List Token}
    {p : Parsed (List SyntaxTree)} (h : ParsesStatements depth s ts p) {x : State}
    (hx : x.Fits depth s) (hframes : x.frames = []) :
    Reaches s.limit s.ending (x.facing .program ts)
      (((x.stating p.value).reporting p.diagnostics).facing .program []) := by
  induction h generalizing x with
  | nil =>
    simp only [State.stating, State.reporting, List.append_nil]
    exact .refl
  | @semicolon t ts p ht more ih =>
    have hstep : (x.facing .program (t :: ts)).step s.limit s.ending =
        some (x.facing .program ts) := by
      simp only [State.step, State.facing, if_pos ht]
    exact .head hstep (ih hx hframes)
  | @last t ts p ht one hr =>
    have hfinish : (x.reads p).finish s.limit s.ending p.value =
        ((x.stating [p.value]).reporting p.diagnostics).facing .program [] := by
      simp only [State.finish, State.reads, hr]
      rfl
    exact (reaches_statement hx ht one).tail (hfinish ▸ step_finish hframes p)
  | @next t ts p m rest q ht one hr hm more ih =>
    let y := (x.stating [p.value]).reporting p.diagnostics
    have hfinish : (x.reads p).finish s.limit s.ending p.value = y.facing .program rest := by
      simp only [State.finish, State.reads, hr, if_pos hm]
      rfl
    have hone := (reaches_statement hx ht one).tail (hfinish ▸ step_finish hframes p)
    have hmore := ih (x := y) ⟨hx.depth_eq, hx.closers_eq⟩ hframes
    rw [State.stating_append_reporting_append] at hmore
    exact hone.trans hmore
  | @skip t ts p u rest r q ht one hr hu hskip more ih =>
    let y := (x.stating [p.value, r.value]).reporting (p.diagnostics ++ r.diagnostics)
    have hfinish : (x.reads p).finish s.limit s.ending p.value = y.facing .program r.rest := by
      subst hskip
      rw [State.finish_eq_skip (x := x.reads p) hr hu hx.surroundings]
      simp only [y, State.reporting_append]
      rfl
    have hone := (reaches_statement hx ht one).tail (hfinish ▸ step_finish hframes p)
    have hmore := ih (x := y) ⟨hx.depth_eq, hx.closers_eq⟩ hframes
    rw [State.stating_append_reporting_append] at hmore
    exact hone.trans hmore

namespace Program

/-- Behind all tokens the machine has no frame left, and holds the program that is parsed. -/
theorem reaches_last (config : Config) (tokens : List Token) :
    ∃ x, Reaches config.maxDepth (ending tokens) (start (significant tokens)) x ∧
      (x.task = .program ∧ x.frames = [] ∧ x.rest = []) ∧
      x.program (ending tokens) = parse config tokens := by
  have hrun := (parses_statements config.maxDepth config.maxDepth (ending tokens)
    (significant tokens)).reaches (x := start []) ⟨Nat.zero_add _, rfl⟩ rfl
  exact ⟨_, hrun, ⟨rfl, rfl, rfl⟩, rfl⟩

/-- The machine comes to an end, and with the program that is parsed. -/
theorem reaches_parse (config : Config) (tokens : List Token) :
    ∃ x, Reaches config.maxDepth (ending tokens) (start (significant tokens)) x ∧
      x.step config.maxDepth (ending tokens) = none ∧
      x.program (ending tokens) = parse config tokens := by
  obtain ⟨x, hx, ⟨htask, -, hrest⟩, hprogram⟩ := reaches_last config tokens
  exact ⟨x, hx, by simp only [State.step, htask, hrest], hprogram⟩

/-- Whatever limit is asked for, expressions nest no deeper than it allows, once it is brought
between 1 and 100. The machine that parses has never entered more of them than that, and counts
those that it has entered and not left. Behind each statement none is left and no closer is waited
for. No tree is nested more deeply either. -/
theorem depth_bounded (keepComments : Bool) (limit : Int) (tokens : List Token) :
    let config := Config.make keepComments limit
    let bound := min (max limit 1) 100
    (∃ x, Reaches config.maxDepth (ending tokens) (start (significant tokens)) x ∧
        x.step config.maxDepth (ending tokens) = none ∧
        x.program (ending tokens) = parse config tokens) ∧
      (∀ x, Reaches config.maxDepth (ending tokens) (start (significant tokens)) x →
        x.entered ≤ bound ∧ x.depth = x.entered ∧
          ∀ t, x.task = .value t → x.frames = [] → x.depth = 0 ∧ x.closers = []) ∧
      (parse config tokens).tree.nesting ≤ bound := by
  intro config bound
  have hbound : config.maxDepth = bound := by
    simp only [config, bound, Config.make, Config.depthLimit]
    omega
  refine ⟨reaches_parse config tokens, fun x hx => ?_, ?_⟩
  · have h := (balanced_start config.maxDepth (significant tokens)).reaches hx
    have hle := h.depth_le
    rw [h.depth_eq] at hle
    exact ⟨by omega, h.depth_eq, fun t => h.of_frames_eq_nil⟩
  · have hle := nesting_parse_le config tokens
    omega

end Program

end LenSyntax

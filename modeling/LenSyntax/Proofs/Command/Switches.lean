import LenSyntax.Command.Arguments

/-! Switches, the flags that take no value. A switch in front of other words is set in the arguments
these stand for, and changes nothing else of them. -/
namespace LenSyntax.Command

/-- Whether a flag takes no value and lets the command go on. -/
def Flag.isSwitch : Flag → Bool
  | .help | .config | .maxDepth => false
  | _ => true

namespace Arguments

/-- The arguments with a switch set. -/
def switch (f : Flag) (a : Arguments) : Arguments := (a.raise f).toOption.getD a

theorem takesValue_of_isSwitch {f : Flag} (hf : f.isSwitch) : f.takesValue = false := by
  cases f <;> first | rfl | cases hf

theorem raise_of_isSwitch {f : Flag} (hf : f.isSwitch) (a : Arguments) :
    a.raise f = .ok (a.switch f) := by
  cases f <;> first | rfl | cases hf

theorem classify_name (f : Flag) : classify f.name = .ok (.flag f false none) := by
  cases f <;> rfl

theorem name_ne_separator (f : Flag) : f.name ≠ "--" := by cases f <;> decide

theorem classifyAll_name (f : Flag) (words : List Text) :
    classifyAll (f.name :: words) = (classifyAll words).map (.flag f false none :: ·) := by
  rw [classifyAll, if_neg (name_ne_separator f), classify_name]
  cases classifyAll words <;> rfl

/-- A flag that takes no value is raised, whatever is behind it. -/
theorem take_flag {g : Flag} (h : g.takesValue = false) (a : Arguments) (input : Option Text)
    (extra : List Text) (short : Bool) (ws : List Word) :
    take a input extra (.flag g short none :: ws) =
      (a.raise g >>= fun b => take b input extra ws) := by
  rw [take.eq_def]
  simp only [h]
  rfl

/-- Words that are classified are taken. -/
theorem ofWords_eq_take {words : List Text} {ws : List Word} (h : classifyAll words = .ok ws) :
    ofWords words = (take start none [] ws >>= fun (a, input, extra) =>
      match input, extra with
      | none, _ => .error (.fault .missingInput)
      | some input, [] => .ok { a with input }
      | some _, extra => .error (.fault (.unrecognized extra))) := by
  rw [ofWords, h]
  rfl

/-- What commutes with a change can be done before it or behind it. -/
theorem map_bind_of_commutes {ε α β : Type} {g : α → Except ε β} {p : α → α} {q : β → β}
    (h : ∀ x, g (p x) = (g x).map q) (e : Except ε α) : (e.map p >>= g) = (e >>= g).map q := by
  cases e with
  | error _ => rfl
  | ok x => exact h x

section
variable (f : Flag)

/-! Whatever is done to the arguments commutes with setting a switch. -/

theorem raise_switch (a : Arguments) (g : Flag) :
    (a.switch f).raise g = (a.raise g).map (switch f) := by
  cases f <;> cases g <;> rfl

theorem set_switch (a : Arguments) (g : Flag) (value : Option Text) :
    (a.switch f).set g value = (a.set g value).map (switch f) := by
  cases g with
  | config => cases f <;> rfl
  | maxDepth =>
    cases value with
    | none => cases f <;> rfl
    | some value =>
      simp only [set]
      cases depth value with
      | ok n => cases f <;> rfl
      | error fault => rfl
  | _ =>
    simp only [set]
    exact raise_switch f a _

theorem foldlM_raise_switch (a : Arguments) (flags : List Flag) :
    flags.foldlM raise (a.switch f) = (flags.foldlM raise a).map (switch f) := by
  induction flags generalizing a with
  | nil => rfl
  | cons g flags ih =>
    rw [List.foldlM_cons, List.foldlM_cons, raise_switch]
    exact map_bind_of_commutes ih _

theorem attach_switch (a : Arguments) (g : Flag) (short : Bool) (attached : Text) :
    (a.switch f).attach g short attached = (a.attach g short attached).map (switch f) := by
  unfold attach
  split
  · exact set_switch f a g _
  split
  · split
    · exact foldlM_raise_switch f a _
    · rfl
  · rfl

/-- The words behind a switch are taken as without it. -/
theorem take_switch (a : Arguments) (input : Option Text) (extra : List Text) (ws : List Word) :
    take (a.switch f) input extra ws =
      (take a input extra ws).map fun r => (r.1.switch f, r.2) := by
  induction a, input, extra, ws using take.induct with
  | case1 => rfl
  | case3 a input extra g short attached ws ih =>
    simp only [take, attach_switch]
    exact map_bind_of_commutes ih _
  | case4 a input extra g short hvalue t ws ih =>
    simp only [take, hvalue, if_true, set_switch]
    exact map_bind_of_commutes ih _
  | case5 a input extra g short ws hvalue hbare =>
    simp only [take, hvalue, if_true]
    rfl
  | case6 a input extra g short ws hvalue ih =>
    rw [take_flag (by simpa using hvalue), take_flag (by simpa using hvalue), raise_switch]
    exact map_bind_of_commutes ih _
  -- The others only hand on the arguments.
  | case2 _ _ _ _ _ ih | case7 _ _ _ _ ih | case10 _ _ _ _ ih => exact ih
  | case8 _ _ _ _ _ ih | case9 _ _ _ _ _ ih | case11 _ _ _ _ _ ih =>
    simp only [take]
    exact ih

end

theorem ofWords_switch {f : Flag} (hf : f.isSwitch) (words : List Text) :
    ofWords (f.name :: words) = (ofWords words).map (switch f) := by
  have hclass := classifyAll_name f words
  cases hwords : classifyAll words with
  | error fault =>
    rw [hwords] at hclass
    rw [ofWords, hclass, ofWords, hwords]
    rfl
  | ok ws =>
    rw [hwords] at hclass
    rw [ofWords_eq_take hclass, ofWords_eq_take hwords, take_flag (takesValue_of_isSwitch hf),
      raise_of_isSwitch hf]
    simp only [bind, Except.bind]
    rw [take_switch]
    cases take start none [] ws with
    | error stop => rfl
    | ok r =>
      obtain ⟨a, input, extra⟩ := r
      cases input with
      | none => rfl
      | some input =>
        cases extra with
        | nil => cases f <;> rfl
        | cons _ _ => rfl

/-- Switches in front of other words are set one by one. -/
theorem ofWords_switches {flags : List Flag} (h : ∀ f ∈ flags, f.isSwitch) (words : List Text) :
    ofWords (flags.map Flag.name ++ words) = (ofWords words).map (flags.foldr switch ·) := by
  induction flags with
  | nil =>
    rw [List.map_nil, List.nil_append]
    cases ofWords words <;> rfl
  | cons f flags ih =>
    obtain ⟨hf, hflags⟩ := List.forall_mem_cons.1 h
    rw [List.map_cons, List.cons_append, ofWords_switch hf, ih hflags]
    cases ofWords words <;> rfl

end Arguments
end LenSyntax.Command

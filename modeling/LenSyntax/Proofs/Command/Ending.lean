import LenSyntax.Proofs.Command.Planning
import Mathlib.Logic.Basic

/-! How the command ends. With arguments that it takes, it ends with a status unless one of four
things escapes: settings that are not UTF-8, settings with too long an integer or nested more deeply
than there is room for, a depth without a value, and an input at a path that no file can have. -/
namespace LenSyntax.Command

/-- What is let through of the faults of a document. -/
def Escape.ofFault? : Toml.Fault → Option Escape
  | .tooManyDigits digits => some (.oversizedInteger digits)
  | _ => none

/-- What is let through, if there are no options. -/
def OptionsFault.escape? : OptionsFault → Option Escape
  | .escape e => some e
  | _ => none

/-- Something is at a path, and is no settings. Only some of this is answered for; the rest
escapes. -/
inductive Unusable (capacity : Toml.Capacity) (files : Files) (p : Path) : Option Escape → Prop
  | unreachable {e : FileError} (h : files p = .error e) (there : e.isAbsence = false) :
      Unusable capacity files p none
  | locked {e : FileError} {changed : Stamp} (h : files p = .ok (.locked e changed)) :
      Unusable capacity files p none
  | undecodable {content : Bytes} {changed : Stamp} (h : files p = .ok (.file content changed))
      (decode : Utf8.decode? content = none) : Unusable capacity files p (some .undecodable)
  | nested {content : Bytes} {changed : Stamp} {text : Text}
      (h : files p = .ok (.file content changed)) (decode : Utf8.decode? content = some text)
      (deep : Toml.framesOf (Toml.unixLines text) ≠ 0)
      (exceeded : capacity.isExceeded (Toml.unixLines text) = true) :
      Unusable capacity files p (some .nestedTooDeeply)
  | malformed {content : Bytes} {changed : Stamp} {text : Text} {failure : Toml.Failure}
      (h : files p = .ok (.file content changed)) (decode : Utf8.decode? content = some text)
      (room : capacity.isExceeded (Toml.unixLines text) = false)
      (document : Toml.document (Toml.unixLines text) = .error failure) :
      Unusable capacity files p (Escape.ofFault? failure.fault)

/-- The settings are there and cannot be used. Nothing is at a path that no file can have. -/
def Spoilt (capacity : Toml.Capacity) (files : Files) (a : Arguments) (escaped : Option Escape) :
    Prop :=
  (Options.settingsPath a).fault? = none ∧
    Unusable capacity files (Options.settingsPath a) escaped

/-- What escapes from a run with some arguments. Settings are looked at first, and the input
last. -/
inductive Escapes (capacity : Toml.Capacity) (files : Files) (a : Arguments) : Escape → Prop
  | settings {e : Escape} (h : Spoilt capacity files a (some e)) : Escapes capacity files a e
  | depth (usable : ∀ escaped, ¬ Spoilt capacity files a escaped) (h : a.maxDepth = some none) :
      Escapes capacity files a .depthWithoutValue
  | path {p : Path} {fault : PathFault} (usable : ∀ escaped, ¬ Spoilt capacity files a escaped)
      (given : a.maxDepth ≠ some none) (input : Options.inputPath a.input = some p)
      (h : p.fault? = some fault) : Escapes capacity files a (.path fault)

/-- Why a run with some arguments comes to nothing. -/
inductive Refused (capacity : Toml.Capacity) (files : Files) (a : Arguments) : Prop
  | settings (h : Spoilt capacity files a none)
  | nothingToWatch (watch : a.watch = true) (h : Options.inputPath a.input = none)
  | input {p : Path} {e : FileError} (watch : a.watch = false)
      (input : Options.inputPath a.input = some p) (h : files.read p = .error e)

/-- The status of a run from which nothing escapes. -/
structure Answers (capacity : Toml.Capacity) (files : Files) (a : Arguments) (standardInput : Bytes)
    (status : Nat) : Prop where
  le_two : status ≤ 2
  eq_two_iff : status = 2 ↔ Refused capacity files a
  watched : ¬ Refused capacity files a → a.watch = true → status = 0
  processed : ¬ Refused capacity files a → a.watch = false → ∃ o source,
    Options.ofArguments capacity files a = .ok o ∧ readInput o files standardInput = .ok source ∧
      (status = 1 ↔ ∃ d ∈ (Report.of o.config source).diagnostics, d.severity = .error)

section
variable {capacity : Toml.Capacity} {files : Files} {p : Path} {content : Bytes} {text : Text}
  {escaped : Option Escape}

/-- Room is wanting only for a document in which something is nested. -/
theorem framesOf_ne_zero (h : capacity.isExceeded text = true) : Toml.framesOf text ≠ 0 := by
  intro hflat
  rw [capacity.isExceeded_of_flat text hflat] at h
  cases h

/-- Whether a document can be used, and what escapes if not, is up to its fault alone, if there is
room for it. -/
theorem mapError_readSettings (h : Utf8.decode? content = some text)
    (hroom : capacity.isExceeded (Toml.unixLines text) = false) :
    (readSettings capacity content).mapError OptionsFault.escape? =
      (Toml.document (Toml.unixLines text)).mapError fun failure =>
        Escape.ofFault? failure.fault := by
  simp only [readSettings, h, hroom, Bool.false_eq_true, if_false]
  cases Toml.document (Toml.unixLines text) with
  | ok table => rfl
  | error failure =>
    obtain ⟨fault, rest⟩ := failure
    cases fault <;> rfl

theorem unusable_of_mapError_readSettings {changed : Stamp}
    (hfile : files p = .ok (.file content changed))
    (h : (readSettings capacity content).mapError OptionsFault.escape? = .error escaped) :
    Unusable capacity files p escaped := by
  cases hdecode : Utf8.decode? content with
  | none =>
    simp only [readSettings, hdecode] at h
    cases h
    exact .undecodable hfile hdecode
  | some text =>
    cases hroom : capacity.isExceeded (Toml.unixLines text) with
    | true =>
      simp only [readSettings, hdecode, hroom, if_true] at h
      cases h
      exact .nested hfile hdecode (framesOf_ne_zero hroom) hroom
    | false =>
      rw [mapError_readSettings hdecode hroom] at h
      cases hdocument : Toml.document (Toml.unixLines text) with
      | ok table =>
        rw [hdocument] at h
        cases h
      | error failure =>
        rw [hdocument] at h
        cases h
        exact .malformed hfile hdecode hroom hdocument

theorem mapError_loadSettings_of_unusable (hpath : p.fault? = none)
    (h : Unusable capacity files p escaped) :
    (loadSettings capacity files p).mapError OptionsFault.escape? = .error escaped := by
  simp only [loadSettings, hpath, Option.isSome_none, Bool.false_eq_true, if_false]
  cases h with
  | unreachable h there =>
    simp only [h, there]
    rfl
  | locked h =>
    simp only [h]
    rfl
  | undecodable h decode =>
    simp only [h, readSettings, decode]
    rfl
  | nested h decode deep exceeded =>
    simp only [h, readSettings, decode, exceeded, if_true]
    rfl
  | malformed h decode room document =>
    simp only [h, mapError_readSettings decode room, document]
    rfl

theorem unusable_of_mapError_loadSettings
    (h : (loadSettings capacity files p).mapError OptionsFault.escape? = .error escaped) :
    p.fault? = none ∧ Unusable capacity files p escaped := by
  cases hpath : p.fault? with
  | some fault =>
    simp only [loadSettings, hpath, Option.isSome_some, if_true] at h
    cases h
  | none =>
    simp only [loadSettings, hpath, Option.isSome_none, Bool.false_eq_true, if_false] at h
    refine ⟨rfl, ?_⟩
    cases hfile : files p with
    | error e =>
      cases hthere : e.isAbsence with
      | true =>
        simp only [hfile, hthere] at h
        cases h
      | false =>
        simp only [hfile, hthere] at h
        cases h
        exact .unreachable hfile hthere
    | ok entry =>
      cases entry with
      | folder changed =>
        simp only [hfile] at h
        cases h
      | locked e changed =>
        simp only [hfile] at h
        cases h
        exact .locked hfile
      | file content changed =>
        simp only [hfile] at h
        exact unusable_of_mapError_readSettings hfile h

end

section
variable {capacity : Toml.Capacity} {files : Files} {a : Arguments} {escaped : Option Escape}
  {standardInput : Bytes}

theorem spoilt_iff : Spoilt capacity files a escaped ↔
    (loadSettings capacity files (Options.settingsPath a)).mapError OptionsFault.escape? =
      .error escaped :=
  ⟨fun h => mapError_loadSettings_of_unusable h.1 h.2, unusable_of_mapError_loadSettings⟩

/-- The settings are spoilt in one way. -/
theorem Spoilt.unique {other : Option Escape} (h : Spoilt capacity files a escaped)
    (h' : Spoilt capacity files a other) : escaped = other :=
  Except.error.inj ((spoilt_iff.1 h).symm.trans (spoilt_iff.1 h'))

/-- At most one thing escapes. -/
theorem Escapes.unique {e f : Escape} (he : Escapes capacity files a e)
    (hf : Escapes capacity files a f) : e = f := by
  cases he with
  | settings h =>
    cases hf with
    | settings h' => exact Option.some_inj.1 (h.unique h')
    | depth usable => exact absurd h (usable _)
    | path usable => exact absurd h (usable _)
  | depth usable h =>
    cases hf with
    | settings h' => exact absurd h' (usable _)
    | depth => rfl
    | path _ given => exact absurd h given
  | path usable given input h =>
    cases hf with
    | settings h' => exact absurd h' (usable _)
    | depth _ h => exact absurd h given
    | path _ _ input' h' =>
      obtain rfl := Option.some_inj.1 (input.symm.trans input')
      obtain rfl := Option.some_inj.1 (h.symm.trans h')
      rfl

theorem Refused.answers (h : Refused capacity files a) :
    Answers capacity files a standardInput 2 where
  le_two := Nat.le_refl 2
  eq_two_iff := iff_of_true rfl h
  watched hnot := absurd h hnot
  processed hnot := absurd h hnot

end

section
variable {capacity : Toml.Capacity} {words : List Text} {first : Files} {a : Arguments}
  {o : Options}

end

end LenSyntax.Command

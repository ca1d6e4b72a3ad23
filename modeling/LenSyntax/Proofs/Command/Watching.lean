import LenSyntax.Proofs.Command.Planning
import Mathlib.Data.List.Basic

/-! Watching a file. The loop remembers one time of change; after any looks at the file this is the
time of the latest look at which it was there. So a look shows something exactly if the file is
there and is new to the loop or has another time than before, and what it shows is what the command
prints about the file. -/
namespace LenSyntax

namespace Stamp

section
open Float.Model (UnpackedFloat)

/-- Finite numbers of one sign are one number if they are alike in exponent and mantissa. -/
theorem finite_eq {s : UnpackedFloat.Sign} {m n : Nat} {e f : Int} {hm : 0 < m} {hn : 0 < n}
    (h : (compare e f).then (compare m n) = .eq) :
    UnpackedFloat.finite s m e hm = .finite s n f hn := by
  obtain ⟨hexponent, hmantissa⟩ := Ordering.then_eq_eq.1 h
  obtain rfl := Std.LawfulEqOrd.eq_of_compare hexponent
  obtain rfl := Std.LawfulEqOrd.eq_of_compare hmantissa
  rfl

/-- Numbers that compare equal are one number, or they are zeros. -/
theorem eq_or_zero_of_beq {x y : UnpackedFloat} (h : x.beq y = true) :
    x = y ∨ (∃ s, x = .zero s) ∧ ∃ s, y = .zero s := by
  have hcompare : x.compare y = some .eq := eq_of_beq h
  cases x with
  | notANumber => cases hcompare
  | infinity s =>
    cases y with
    | infinity s' => cases s <;> cases s' <;> first | exact .inl rfl | cases hcompare
    | _ => cases s <;> cases hcompare
  | zero s =>
    cases y with
    | zero s' => exact .inr ⟨⟨s, rfl⟩, s', rfl⟩
    | notANumber => cases hcompare
    | _ s' => cases s' <;> cases hcompare
  | finite s m e =>
    cases y with
    | notANumber => cases hcompare
    | infinity s' => cases s' <;> cases hcompare
    | zero => cases s <;> cases hcompare
    | finite s' n f =>
      cases s with
      | positive =>
        cases s' with
        | positive => exact .inl (finite_eq (Option.some_inj.1 hcompare))
        | negative => cases hcompare
      | negative =>
        cases s' with
        | positive => cases hcompare
        | negative =>
          exact .inl (finite_eq (Ordering.swap_inj.1 (Option.some_inj.1 hcompare)))

theorem beq_zero (u : UnpackedFloat) (s s' : UnpackedFloat.Sign) :
    u.beq (.zero s) = u.beq (.zero s') := by
  cases u with
  | notANumber => rfl
  | zero => rfl
  | _ s => cases s <;> rfl

end

/-- Two times that no time tells apart. -/
def Alike (s t : Stamp) : Prop := ∀ u : Stamp, (u == s) = (u == t)

/-- Equal times are alike, though the two zeros are not one. -/
theorem alike_of_beq {s t : Stamp} (h : (s == t) = true) : s.Alike t := by
  intro u
  change u.toModel.unpack.beq s.toModel.unpack = u.toModel.unpack.beq t.toModel.unpack
  obtain heq | ⟨⟨a, ha⟩, b, hb⟩ := eq_or_zero_of_beq h
  · rw [heq]
  · rw [ha, hb]
    exact beq_zero _ a b

end Stamp

namespace Command

theorem Output.append_right_inj {a b c : Output} : a ++ b = a ++ c ↔ b = c := by
  constructor
  · intro h
    exact Output.ext (List.append_cancel_left (congrArg out h))
      (List.append_cancel_left (congrArg err h))
  · exact congrArg _

/-- The time of change of what is at a path, if something is there. -/
def stamp? (p : Path) (files : Files) : Option Stamp := (files p).toOption.map Entry.changed

/-- The time of change at the latest of some looks at which something was there. -/
def lastStamp? (p : Path) (seen : List Files) : Option Stamp := (seen.filterMap (stamp? p)).getLast?

section
variable {o : Options} {p : Path} {last : Stamp} {files : Files} {seen states : List Files}

theorem lastStamp?_cons :
    (lastStamp? p (files :: seen)).getD last =
      (lastStamp? p seen).getD ((stamp? p files).getD last) := by
  rw [lastStamp?, lastStamp?, List.filterMap_cons]
  cases stamp? p files with
  | none => rfl
  | some t =>
    rw [List.getLast?_cons]
    rfl

/-- What a look leaves behind is, for all looks to come, the time that the file has. -/
theorem poll_fst : (poll o p last files).1.Alike ((stamp? p files).getD last) := by
  rw [poll, stamp?]
  cases files p with
  | error e => exact fun _ => rfl
  | ok entry =>
    by_cases h : entry.changed == last
    · -- the time remembered is kept, and the one of the file is equal to it
      simp only [if_pos h]
      exact fun u => (Stamp.alike_of_beq h u).symm
    · simp only [if_neg h]
      exact fun _ => rfl

/-- One look: what is there is processed if it has not the time remembered. -/
theorem poll_snd : (poll o p last files).2 =
    if ∃ t, stamp? p files = some t ∧ t != last then reprocess o files else .empty := by
  rw [poll, stamp?]
  cases files p with
  | error e => simp [Except.toOption]
  | ok entry => cases h : entry.changed == last <;> simp [h, bne, Except.toOption]

theorem polls_length : (polls o p last states).length = states.length := by
  induction states generalizing last with
  | nil => rfl
  | cons files states ih => rw [polls, List.length_cons, List.length_cons, ih]

/-- Looks that start with times that are alike show the same. -/
theorem polls_congr {last' : Stamp} (h : last.Alike last') :
    polls o p last states = polls o p last' states := by
  induction states generalizing last last' with
  | nil => rfl
  | cons files states ih =>
    have hshown : (poll o p last files).2 = (poll o p last' files).2 := by
      have hlast (u : Stamp) : (u == last) = (u == last') := h u
      rw [poll_snd, poll_snd]
      simp only [bne, hlast]
    have hleft : (poll o p last files).1.Alike (poll o p last' files).1 := by
      intro u
      rw [poll_fst u, poll_fst u]
      cases stamp? p files with
      | none => exact h u
      | some t => rfl
    rw [polls, polls, hshown, ih hleft]

/-- What the loop remembers at a look is the time of the latest look in front of it at which
something was there. -/
theorem polls_getElem? {i : Nat} {now : Files} (h : states[i]? = some now) :
    (polls o p last states)[i]? =
      some (poll o p ((lastStamp? p (states.take i)).getD last) now).2 := by
  induction states generalizing last i with
  | nil => cases h
  | cons files states ih =>
    cases i with
    | zero =>
      obtain rfl : files = now := by simpa using h
      rfl
    | succ i =>
      -- the other looks start with the time that the first one leaves behind
      rw [polls, List.getElem?_cons_succ, polls_congr poll_fst, ih (by simpa using h),
        List.take_succ_cons, lastStamp?_cons]

theorem sections_ne_nil (h : (o.showTokens || o.showTree) = true) (r : Report) :
    sections o r ≠ [] := by
  unfold sections
  cases ht : o.showTokens with
  | true => simp [Text.ofString]
  | false =>
    rw [ht, Bool.false_or] at h
    simp [h, Text.ofString]

/-- Whatever is processed prints something. -/
theorem process_out_ne_nil (h : (o.showTokens || o.showTree) = true) (source : Text) :
    (process o source).1.out ≠ [] := by
  let body : Output := if o.json then
      ⟨((Report.of o.config source).json o.showTokens o.showTree).text ++ "\n", []⟩
    else ⟨sections o (Report.of o.config source),
      complaints o source (Report.of o.config source).diagnostics⟩
  have hbody : body.out ≠ [] := by
    by_cases hjson : o.json
    · simp [body, hjson, Text.ofString]
    · simpa [body, hjson] using sections_ne_nil h _
  exact List.append_ne_nil_of_right_ne_nil _ hbody

theorem reprocess_ne_empty (h : (o.showTokens || o.showTree) = true) :
    reprocess o files ≠ .empty := by
  intro hempty
  rw [reprocess] at hempty
  split at hempty
  · next source _ => exact process_out_ne_nil h source (congrArg Output.out hempty)
  · have herr := congrArg Output.err hempty
    simp [unreadable, Output.complaint, Output.empty, Text.ofString] at herr

end

/-- `Watches o p earlier now shown`: at a look at the files as they are `now`, behind some `earlier`
looks, the loop shows what it should. It shows something exactly if the path is there, and either
was not there before and has not the time `unseen`, or has another time than at the latest look at
which it was there. Of a file that can be read it shows what the command prints with the same
options, up to a line that says what was read, and of another one why it cannot be read. -/
structure Watches (o : Options) (p : Path) (earlier : List Files) (now : Files) (shown : Output) :
    Prop where
  shows_iff : shown ≠ .empty ↔ ∃ t, stamp? p now = some t ∧
    (lastStamp? p earlier = none ∧ t != unseen ∨ ∃ u, lastStamp? p earlier = some u ∧ t != u)
  readable : shown ≠ .empty → ∀ content, now.read p = .ok content → ∀ input,
    let printed := .detail o "cli" (readLine o (Utf8.decode content)) ++ shown
    (once { o with watch := false } now input).output = printed ∧
      ∀ capacity words, plan capacity words now = .once { o with watch := false } →
        (run capacity words now input).output = printed
  unreadable : shown ≠ .empty → ∀ e, now.read p = .error e → shown = .complaint (e.message p)

section
variable {o : Options} {p : Path} {now : Files}

theorem reprocess_readable (hinput : o.input = some p) {content : Bytes}
    (hread : now.read p = .ok content) :
    reprocess o now = (process o (Utf8.decode content)).1 := by
  simp only [reprocess, readInput, hinput, hread, Except.map]

theorem reprocess_unreadable (hinput : o.input = some p) {e : FileError}
    (hread : now.read p = .error e) : reprocess o now = .complaint (e.message p) := by
  simp only [reprocess, readInput, hinput, hread, Except.map, unreadable, Option.getD_some]

/-- A watched file is processed as the command processes it once. -/
theorem once_output (hinput : o.input = some p) (hpath : p.fault? = none) {content : Bytes}
    (hread : now.read p = .ok content) (input : Bytes) :
    (once { o with watch := false } now input).output =
      .detail o "cli" (readLine o (Utf8.decode content)) ++ reprocess o now := by
  rw [reprocess_readable hinput hread]
  have hread' : readInput { o with watch := false } now input = .ok (Utf8.decode content) := by
    simp only [readInput, hinput, hread, Except.map]
  have hbind : o.input.bind Path.fault? = none := by rw [hinput, Option.bind_some, hpath]
  simp only [once, hbind, hread']
  rfl

theorem watches_poll (hinput : o.input = some p) (hpath : p.fault? = none)
    (hshown : (o.showTokens || o.showTree) = true) (earlier : List Files) :
    Watches o p earlier now (poll o p ((lastStamp? p earlier).getD unseen) now).2 := by
  rw [poll_snd]
  have hnew : (∃ t, stamp? p now = some t ∧ t != (lastStamp? p earlier).getD unseen) ↔
      ∃ t, stamp? p now = some t ∧
        (lastStamp? p earlier = none ∧ t != unseen ∨
          ∃ u, lastStamp? p earlier = some u ∧ t != u) := by
    cases lastStamp? p earlier <;> simp
  split
  · next h =>
    constructor
    · exact iff_of_true (reprocess_ne_empty hshown) (hnew.1 h)
    · intro _ content hread input
      have honce := once_output hinput hpath hread input
      refine ⟨honce, fun capacity words hplan => ?_⟩
      rw [run_of_plan_eq_once hplan]
      exact honce
    · intro _ e hread
      exact reprocess_unreadable hinput hread
  · next h =>
    have hnothing : ¬ (Output.empty ≠ .empty) := fun hne => hne rfl
    constructor
    · exact iff_of_false hnothing fun hsome => h (hnew.2 hsome)
    · exact fun hne => absurd hne hnothing
    · exact fun hne => absurd hne hnothing

/-- While a file is watched, each look at it shows what it should, and the looks go on until the
command is broken off; only a path that no file can have ends them. -/
theorem session_watch {capacity : Toml.Capacity} {words : List Text} {first : Files}
    (h : plan capacity words first = .watch o p) (later : List Files) (input : Bytes) :
    (∀ fault, p.fault? = some fault →
        session capacity words first later input = ⟨[announcement p], .escape (.path fault)⟩) ∧
      (p.fault? = none → ∃ shown others,
        session capacity words first later input =
          ⟨(announcement p ++ shown) :: others ++ [.empty], .status 0⟩ ∧
        (shown :: others).length = (first :: later).length ∧
        ∀ (i : Nat) now out, (first :: later)[i]? = some now → (shown :: others)[i]? = some out →
          Watches o p ((first :: later).take i) now out) := by
  obtain ⟨hinput, hshown⟩ := of_plan_eq_watch h
  constructor
  · intro fault hpath
    simp only [session, h, hpath]
  · intro hpath
    refine ⟨(poll o p unseen first).2, polls o p (poll o p unseen first).1 later, ?_, ?_, ?_⟩
    · simp only [session, h, hpath, polls]
    · exact @polls_length o p unseen (first :: later)
    · intro i now out hnow hout
      have hpoll : (polls o p unseen (first :: later))[i]? = _ := polls_getElem? hnow
      rw [polls] at hpoll
      obtain rfl := Option.some_inj.1 (hout.symm.trans hpoll)
      exact watches_poll hinput hpath hshown _

end

/-- A file that has the time `unseen` is passed over until it changes. -/
theorem session_watch_unseen :
    let capacity := Toml.Capacity.ofFrames 986
    let p : Path := ⟨[], ["a.len"]⟩
    let holding (changed : Stamp) : Files := fun q =>
      if q = p then .ok (.file [0x31] changed) else .error .notFound
    let o : Options := ⟨some p, true, false, false, false, .standard, true, false⟩
    let shown : Output :=
      ⟨"== tokens ==\n1:1-1:2     NUMBER     '1'\n1:2-1:2     EOF        ''\n", []⟩
    plan capacity ["a.len", "--tokens", "--watch"] (holding unseen) = .watch o p ∧
      session capacity ["a.len", "--tokens", "--watch"] (holding unseen) [holding 1] [] =
        ⟨[announcement p ++ .empty, shown, .empty], .status 0⟩ ∧
      Watches o p [] (holding unseen) .empty ∧
      Watches o p [holding unseen] (holding 1) shown := by
  intro capacity p holding o shown
  have hplan : plan capacity ["a.len", "--tokens", "--watch"] (holding unseen) = .watch o p := rfl
  obtain ⟨-, hsession⟩ := session_watch hplan [holding 1] []
  obtain ⟨first, others, hsplit, -, hwatches⟩ := hsession (by decide)
  have hshown : (session capacity ["a.len", "--tokens", "--watch"] (holding unseen)
      [holding 1] []).outputs = [announcement p ++ .empty, shown, .empty] := by
    decide +kernel
  rw [hsplit] at hshown
  obtain ⟨hfirst, hothers⟩ := List.cons_eq_cons.1 hshown
  obtain rfl : first = .empty := Output.append_right_inj.1 hfirst
  have hrest : others ++ [Output.empty] = [shown] ++ [Output.empty] := hothers
  obtain rfl : others = [shown] := List.append_cancel_right hrest
  exact ⟨hplan, hsplit, hwatches 0 _ _ rfl rfl, hwatches 1 _ _ rfl rfl⟩

end Command
end LenSyntax

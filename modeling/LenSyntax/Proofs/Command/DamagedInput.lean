import LenSyntax.Proofs.Command.Selection
import LenSyntax.Proofs.Command.Watching
import LenSyntax.Proofs.Text.Decoding
import LenSyntax.Report.Input

/-! Inputs with damaged bytes. Whatever bytes the command is given, all that it prints is about the
text that is read of them, and damage to some of them does not reach what is spelled by others. -/
namespace LenSyntax.Command

/-- The input of a run holds some bytes. -/
def InputHolds (o : Options) (files : Files) (standardInput bytes : Bytes) : Prop :=
  match o.input with
  | none => standardInput = bytes
  | some p => p.fault? = none ∧ files.read p = .ok bytes

/-- What is printed tells the report of what is given. On the standard output there are the dumps
that are shown, each below its title, or a document with them and with the diagnostics; on the
standard error there is a line or a snippet for each diagnostic, unless they are in the document.
In front of these there is nothing but lines that are asked for. -/
structure Tells (o : Options) (i : Input) (shown : Output) : Prop where
  text : o.json = false → shown.out =
    (if o.showTokens then "== tokens ==\n" ++ (i.report .standard o.config).tokenDump else []) ++
      (if o.showTree then "== ast ==\n" ++ (i.report .standard o.config).treeDump else [])
  document : o.json → Json.read? shown.out = some (.object
    ((i.report .standard o.config).document.filter (Report.keeps o.showTokens o.showTree)))
  complaints : ∃ details : List Text,
    (∀ line ∈ details, o.verbose = true ∧ ("DEBUG " : Text) <+: line) ∧
      shown.err = Text.unlines details ++ Text.unlines
        (if o.json then [] else (i.report .standard o.config).diagnostics.map fun d =>
          if o.brief then d.brief else d.snippet i.decoded (inputLabel o))

section
variable {capacity : Toml.Capacity} {o : Options} {files : Files} {input bytes : Bytes}
  {words : List Text} {p : Path}

/-- A detail is a line if it is asked for, and else nothing. -/
theorem err_detail (o : Options) (place message : Text) : ∃ details : List Text,
    (∀ line ∈ details, o.verbose = true ∧ ("DEBUG " : Text) <+: line) ∧
      (Output.detail o place message).err = Text.unlines details := by
  unfold Output.detail
  cases hverbose : o.verbose with
  | false => exact ⟨[], nofun, rfl⟩
  | true =>
    refine ⟨["DEBUG " ++ programName ++ "." ++ place ++ ": " ++ message], ?_, ?_⟩
    · intro line hline
      obtain rfl := List.mem_singleton.1 hline
      rw [List.append_assoc, List.append_assoc, List.append_assoc, List.append_assoc]
      exact ⟨rfl, List.prefix_append _ _⟩
    · simp [Text.unlines]

theorem tells_detail_append {i : Input} {shown : Output} (h : Tells o i shown)
    (place message : Text) : Tells o i (.detail o place message ++ shown) := by
  obtain ⟨htext, hdocument, details, hdetails, herr⟩ := h
  obtain ⟨more, hmore, hdetail⟩ := err_detail o place message
  have hout : (Output.detail o place message ++ shown).out = shown.out := List.nil_append _
  refine ⟨fun hjson => hout.trans (htext hjson),
    fun hjson => (congrArg Json.read? hout).trans (hdocument hjson), more ++ details, ?_, ?_⟩
  · intro line hline
    exact (List.mem_append.1 hline).elim (hmore line) (hdetails line)
  · change (Output.detail o place message).err ++ shown.err = _
    rw [hdetail, herr, Text.unlines_append, List.append_assoc]

theorem tells_present (o : Options) (i : Input) :
    Tells o i (present o i.decoded (i.report .standard o.config)) := by
  have hprinted : Tells o i (printed o i.decoded (i.report .standard o.config)) := by
    unfold printed
    split
    · next hjson =>
      refine ⟨fun h => absurd hjson (Bool.eq_false_iff.1 h), fun _ => ?_, [], nofun, ?_⟩
      · rw [Report.json_eq]
        exact Report.read?_document o.config i.decoded _
      · rw [if_pos hjson]
        rfl
    · next hjson =>
      refine ⟨fun _ => rfl, fun h => absurd h hjson, [], nofun, ?_⟩
      rw [if_neg hjson]
      exact complaints_eq o i.decoded _
  unfold present
  cases (i.report .standard o.config).counts? with
  | none => exact hprinted
  | some counts => exact tells_detail_append hprinted _ _

theorem readInput_of_holds (h : InputHolds o files input bytes) :
    o.input.bind Path.fault? = none ∧ readInput o files input = .ok (Utf8.decode bytes) := by
  unfold InputHolds at h
  unfold readInput
  cases hinput : o.input with
  | none =>
    rw [hinput] at h
    exact ⟨rfl, by rw [h]⟩
  | some p =>
    rw [hinput] at h
    exact ⟨h.1, congrArg (Except.map Utf8.decode) h.2⟩

/-- What a run does depends on its input by what is read of its bytes. -/
theorem run_of_holds (hplan : plan capacity words files = .once o)
    (h : InputHolds o files input bytes) :
    let source := Utf8.decode bytes
    let r := Report.of o.config source
    run capacity words files input =
      ⟨.status (if Diagnostics.hasErrors r.diagnostics then 1 else 0),
        .detail o "cli" (readLine o source) ++ present o source r⟩ := by
  obtain ⟨hpath, hread⟩ := readInput_of_holds h
  simp only [run_of_plan_eq_once hplan, once, hpath, hread]
  rfl

theorem poll_tells (hinput : o.input = some p) (h : InputHolds o files input bytes) {last : Stamp}
    (hshown : (poll o p last files).2 ≠ .empty) :
    Tells o (.bytes bytes) (poll o p last files).2 := by
  have hread : readInput o files [] = .ok (Utf8.decode bytes) := by
    rw [← (readInput_of_holds h).2, readInput, readInput, hinput]
  have hprocess : reprocess o files =
      present o (Utf8.decode bytes) (Report.of o.config (Utf8.decode bytes)) := by
    rw [reprocess, hread]
    rfl
  rw [poll_snd] at hshown ⊢
  split at hshown
  · next hnew =>
    rw [if_pos hnew, hprocess]
    exact tells_present o (.bytes bytes)
  · exact absurd rfl hshown

end

/-- Bytes are read as what they spell, with one replacement for each damaged piece, so damage does
not reach what is spelled beside it, and no surrogate is read. A report of bytes is that of the text
that is read of them, and so is a token dump. The command reads its input alike: it tells the report
of the bytes that the input holds, whether it is run once or watches a file, and it does not matter
if what is read of them is written in their place. -/
theorem damage_stays_local :
    (∀ s t, (Input.bytes s).decoded = t ↔ Utf8.Replaces s t) ∧
      (∀ t : Text, (∀ c ∈ t, ¬ c.isSurrogate) → t ≠ [] → ∀ a b : Bytes,
        (Input.bytes (a ++ Utf8.encode t ++ b)).decoded =
          (Input.bytes a).decoded ++ t ++ (Input.bytes b).decoded) ∧
      ∀ bytes : Bytes,
        let given := Input.bytes bytes
        let source := given.decoded
        (∀ c ∈ source, ¬ c.isSurrogate) ∧
          (∀ stages config,
            given.report stages config = (Input.text source).report stages config ∧
              given.tokenDump stages config = (Input.text source).tokenDump stages config) ∧
          ∀ o files input, InputHolds o files input bytes →
            (∀ capacity words, plan capacity words files = .once o →
              (run capacity words files input).ending = .status
                  (if Diagnostics.hasErrors (given.report .standard o.config).diagnostics then 1
                  else 0) ∧
                Tells o given (run capacity words files input).output ∧
                ∀ files' input', plan capacity words files' = .once o →
                  InputHolds o files' input' (Utf8.encode source) →
                    run capacity words files' input' = run capacity words files input) ∧
            ∀ p last, o.input = some p → (poll o p last files).2 ≠ .empty →
              Tells o given (poll o p last files).2 := by
  refine ⟨fun s t => Utf8.decode_eq_iff, fun t ht hne a b =>
    Utf8.decode_append_encode_append ht hne a b, fun bytes => ?_⟩
  intro given source
  refine ⟨(Utf8.replaces_decode bytes).not_isSurrogate, fun stages config => ⟨rfl, rfl⟩,
    fun o files input h =>
      ⟨fun capacity words hplan => ?_, fun p last hinput => poll_tells hinput h⟩⟩
  have hrun := run_of_holds hplan h
  refine ⟨congrArg Outcome.ending hrun, ?_, fun files' input' hplan' h' => ?_⟩
  · rw [hrun]
    exact tells_detail_append (tells_present o given) _ _
  · have hsource : Utf8.decode (Utf8.encode source) = Utf8.decode bytes :=
      Utf8.decode_encode_decode bytes
    rw [hrun, run_of_holds hplan' h', hsource]

/-- The start of a long spelling, a letter, the end of a spelling and another letter: in a file that
is processed once and in one that is watched. -/
theorem damage_beside_letter :
    let capacity := Toml.Capacity.ofFrames 986
    let a : Bytes := [0xE2, 0x82]
    let b : Bytes := [0xBF, 0x41]
    let t : Text := [.ofNat 0xE9]
    let bytes := a ++ Utf8.encode t ++ b
    let source : Text := [.replacement] ++ t ++ [.replacement, .ofChar 'A']
    let p : Path := ⟨[], ["a.len"]⟩
    let holding (content : Bytes) : Files := fun q =>
      if q = p then .ok (.file content 1) else .error .notFound
    let o : Options := ⟨some p, true, true, false, false, .standard, false, false⟩
    ((∀ c ∈ t, ¬ c.isSurrogate) ∧ t ≠ []) ∧ (Input.bytes bytes).decoded = source ∧
      plan capacity ["a.len"] (holding bytes) = .once o ∧ InputHolds o (holding bytes) [] bytes ∧
      Tells o (.bytes bytes) (run capacity ["a.len"] (holding bytes) []).output ∧
      run capacity ["a.len"] (holding (Utf8.encode source)) [] =
        run capacity ["a.len"] (holding bytes) [] ∧
      (poll o p unseen (holding bytes)).2 ≠ .empty ∧
      Tells o (.bytes bytes) (poll o p unseen (holding bytes)).2 := by
  intro capacity a b t bytes source p holding o
  obtain ⟨-, hlocal, hcommand⟩ := damage_stays_local
  have ht : ∀ c ∈ t, ¬ c.isSurrogate := by decide
  have hdecoded : (Input.bytes bytes).decoded = source := hlocal t ht (by decide) a b
  obtain ⟨-, -, hruns⟩ := hcommand bytes
  have hholds : InputHolds o (holding bytes) [] bytes := ⟨rfl, rfl⟩
  obtain ⟨honce, hwatch⟩ := hruns o (holding bytes) [] hholds
  obtain ⟨-, htells, hagain⟩ := honce capacity ["a.len"] rfl
  have hlook : (poll o p unseen (holding bytes)).2 = reprocess o (holding bytes) := by
    rw [poll_snd, if_pos ⟨1, rfl, by decide +kernel⟩]
  have hshown : (poll o p unseen (holding bytes)).2 ≠ .empty := hlook ▸ reprocess_ne_empty rfl
  refine ⟨⟨ht, by decide⟩, hdecoded, rfl, hholds, htells, ?_, hshown,
    hwatch p unseen rfl hshown⟩
  exact hagain _ [] rfl ⟨rfl, by rw [hdecoded]; rfl⟩

end LenSyntax.Command

import LenSyntax.Proofs.Command.Planning
import LenSyntax.Proofs.Command.Switches
import LenSyntax.Proofs.Report.Document

/-! What the flags for the output select. They choose what is printed of a report, and how; the
report itself and the status of the run do not depend on them. -/
namespace LenSyntax.Command

/-- The flags for what is printed. -/
structure Selection where
  tokens : Bool
  ast : Bool
  json : Bool
  brief : Bool

namespace Selection

/-- The flags that stand for it. -/
def flags (s : Selection) : List Flag :=
  (if s.tokens then [.tokens] else []) ++ (if s.ast then [.ast] else []) ++
    (if s.json then [.json] else []) ++ (if s.brief then [.brief] else [])

/-- What is shown: a section that is asked for, or each of them if none is. -/
def showsTokens (s : Selection) : Bool := s.tokens || !s.ast

def showsTree (s : Selection) : Bool := s.ast || !s.tokens

end Selection

/-- The arguments with other flags for the output. -/
def Arguments.select (a : Arguments) (s : Selection) : Arguments :=
  { a with tokens := s.tokens, ast := s.ast, json := s.json, brief := s.brief }

/-- The options with other flags for the output. -/
def Options.select (o : Options) (s : Selection) : Options :=
  { o with showTokens := s.showsTokens, showTree := s.showsTree, json := s.json, brief := s.brief }

/-- What is printed about a report without further details. -/
def printed (o : Options) (source : Text) (r : Report) : Output :=
  if o.json then ⟨(r.json o.showTokens o.showTree).text ++ "\n", []⟩
  else ⟨sections o r, complaints o source r.diagnostics⟩

/-- How the outcomes of a run depend on the flags for the output, if `r` is the report of the source
and `label` is the name of the input. -/
structure Selects (r : Report) (source label : Text) (outcome : Selection → Outcome) : Prop where
  ending : ∀ s, (outcome s).ending = .status (if Diagnostics.hasErrors r.diagnostics then 1 else 0)
  text : ∀ s, s.json = false → (outcome s).output.out =
    (if s.showsTokens then "== tokens ==\n" ++ r.tokenDump else []) ++
      (if s.showsTree then "== ast ==\n" ++ r.treeDump else [])
  sections : ∀ s, s.json = false → s.tokens = s.ast →
    (outcome s).output.out = (outcome { s with tokens := true, ast := false }).output.out ++
      (outcome { s with tokens := false, ast := true }).output.out
  brief : ∀ s brief, (outcome { s with brief }).output.out = (outcome s).output.out
  complaints : ∀ s, s.json = false → (outcome s).output.err =
    Text.unlines (r.diagnostics.map fun d => if s.brief then d.brief else d.snippet source label)
  silent : ∀ s, s.json → (outcome s).output.err = []
  document : ∀ s, s.json →
    Json.read? (outcome s).output.out =
      some (.object (r.document.filter (Report.keeps s.showsTokens s.showsTree)))

/-- The flags in front of words that have none of them. -/
theorem Arguments.ofWords_flags {words : List Text} {a : Arguments} (h : ofWords words = .ok a)
    (hnone : a.select ⟨false, false, false, false⟩ = a) (s : Selection) :
    ofWords (s.flags.map Flag.name ++ words) = .ok (a.select s) := by
  obtain ⟨tokens, ast, json, brief⟩ := s
  have hswitches : ∀ f ∈ (Selection.mk tokens ast json brief).flags, f.isSwitch := by
    cases tokens <;> cases ast <;> cases json <;> cases brief <;> decide
  rw [ofWords_switches hswitches, h, ← hnone]
  cases tokens <;> cases ast <;> cases json <;> cases brief <;> rfl

section
variable {capacity : Toml.Capacity} {words : List Text} {files : Files} {a : Arguments}
  {o : Options} {s : Selection} {input : Bytes} {source : Text}

/-- The flags for the output change no other option. -/
theorem Options.ofArguments_select (ho : ofArguments capacity files a = .ok o) (s : Selection) :
    ofArguments capacity files (a.select s) = .ok (o.select s) := by
  have hpath : settingsPath (a.select s) = settingsPath a := rfl
  have hsame : (a.select s).maxDepth = a.maxDepth := rfl
  simp only [ofArguments, bind, Except.bind, hpath, hsame] at ho ⊢
  split at ho
  · cases ho
  · cases hdepth : a.maxDepth with
    | none =>
      rw [hdepth] at ho
      cases ho
      rfl
    | some depth =>
      cases depth with
      | none => rw [hdepth] at ho; cases ho
      | some n =>
        rw [hdepth] at ho
        cases ho
        rfl

theorem run_of_select (h : Arguments.ofWords words = .ok (a.select s))
    (ho : Options.ofArguments capacity files a = .ok o) (hwatch : o.watch = false) :
    run capacity words files input = once (o.select s) files input := by
  apply run_of_plan_eq_once
  have hunwatched : (o.select s).watch = false := hwatch
  simp only [plan, h, Options.ofArguments_select ho s, hunwatched]
  rfl

theorem once_of_readable (hverbose : o.verbose = false) (hpath : o.input.bind Path.fault? = none)
    (hread : readInput o files input = .ok source) :
    once o files input =
      ⟨.status (if Diagnostics.hasErrors (Report.of o.config source).diagnostics then 1 else 0),
        printed o source (Report.of o.config source)⟩ := by
  have hdetail (place message : Text) : Output.detail o place message = .empty := by
    rw [Output.detail, hverbose]
    rfl
  have hpresent (r : Report) : present o source r = printed o source r := by
    simp only [present, hdetail]
    cases r.counts? <;> rfl
  simp only [once, hpath, hread, process, hdetail, hpresent]
  rfl

/-- Together the sections are what they are one by one. -/
theorem sections_select (o : Options) (r : Report) (h : s.tokens = s.ast) :
    sections (o.select s) r = sections (o.select { s with tokens := true, ast := false }) r ++
      sections (o.select { s with tokens := false, ast := true }) r := by
  obtain ⟨tokens, ast, json, brief⟩ := s
  obtain rfl : tokens = ast := h
  cases tokens <;> simp [sections, Options.select, Selection.showsTokens, Selection.showsTree]

/-- There is a line or a snippet for each diagnostic. -/
theorem complaints_eq (o : Options) (source : Text) (ds : List Diagnostic) :
    complaints o source ds = Text.unlines
      (ds.map fun d => if o.brief then d.brief else d.snippet source (inputLabel o)) := by
  rw [complaints, Diagnostics.snippets_eq]
  cases o.brief <;> rfl

theorem printed_of_text (o : Options) (source : Text) (r : Report) (h : s.json = false) :
    printed (o.select s) source r =
      ⟨sections (o.select s) r, complaints (o.select s) source r.diagnostics⟩ := by
  rw [printed, Options.select, h]
  rfl

theorem printed_of_json (o : Options) (source : Text) (r : Report) (h : s.json) :
    let kept := r.document.filter (Report.keeps s.showsTokens s.showsTree)
    printed (o.select s) source r = ⟨(Json.object kept).text ++ "\n", []⟩ := by
  rw [printed, Options.select, h]
  simp only [if_true, Report.json_eq]

/-- Whether there are short lines or snippets, the standard output is the same. -/
theorem out_printed_brief (o : Options) (source : Text) (r : Report) (s : Selection)
    (brief : Bool) :
    (printed (o.select { s with brief }) source r).out = (printed (o.select s) source r).out := by
  obtain ⟨tokens, ast, json, short⟩ := s
  cases json <;> rfl

/-- The flags for the output select what is printed of one report. -/
theorem run_selects {words : Selection → List Text}
    (h : ∀ s, Arguments.ofWords (words s) = .ok (a.select s))
    (ho : Options.ofArguments capacity files a = .ok o) (hwatch : o.watch = false)
    (hverbose : o.verbose = false) (hpath : o.input.bind Path.fault? = none)
    (hread : readInput o files input = .ok source) :
    Selects (Report.of o.config source) source (inputLabel o)
      fun s => run capacity (words s) files input := by
  have hrun (s : Selection) : run capacity (words s) files input =
      ⟨.status (if Diagnostics.hasErrors (Report.of o.config source).diagnostics then 1 else 0),
        printed (o.select s) source (Report.of o.config source)⟩ := by
    rw [run_of_select (h s) ho hwatch]
    exact once_of_readable (o := o.select s) hverbose hpath hread
  simp only [hrun]
  constructor
  · exact fun s => rfl
  · intro s hjson
    rw [printed_of_text o source _ hjson]
    rfl
  · intro s hjson hboth
    have hone (tokens ast : Bool) := printed_of_text (s := { s with tokens, ast }) o source
      (Report.of o.config source) hjson
    simp only [hone]
    exact sections_select o _ hboth
  · intro s brief
    exact out_printed_brief o source _ s brief
  · intro s hjson
    rw [printed_of_text o source _ hjson]
    exact complaints_eq (o.select s) source _
  · intro s hjson
    rw [printed_of_json o source _ hjson]
  · intro s hjson
    rw [printed_of_json o source _ hjson]
    exact Report.read?_document o.config source _

end

/-- A letter beyond the 16-bit units behind a backslash, piped in with each choice of flags. -/
theorem run_selects_astralLetter :
    let capacity := Toml.Capacity.ofFrames 986
    let words (s : Selection) : List Text := s.flags.map Flag.name ++ [Text.ofString "-"]
    let input : Bytes := [0x22, 0x5C, 0xF0, 0x9F, 0x98, 0x80, 0x22]
    let source : Text := ['"', '\\', .ofNat 0x1F600, '"']
    let r := Report.of .standard source
    Diagnostics.hasErrors r.diagnostics ∧ Selects r source "<stdin>" fun s =>
      run capacity (words s) (fun _ => .error .notFound) input := by
  intro capacity words input source r
  have hwords := Arguments.ofWords_flags
    (show Arguments.ofWords ["-"] = .ok { Arguments.start with input := "-" } from rfl) rfl
  have hoptions : Options.ofArguments capacity (fun _ => .error .notFound)
      { Arguments.start with input := "-" } =
        .ok ⟨none, true, true, false, false, .standard, false, false⟩ := rfl
  exact ⟨by decide +kernel, run_selects hwords hoptions rfl rfl rfl rfl⟩

end LenSyntax.Command

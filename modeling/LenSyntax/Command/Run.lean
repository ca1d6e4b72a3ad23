import LenSyntax.Command.Watch

/-! Runs of the command. A run ends with status 0, or 1 if the source has errors, or 2 if there is
nothing that could be processed. -/
namespace LenSyntax.Command

inductive Ending where
  | status (n : Nat)
  | escape (e : Escape)
  deriving DecidableEq

@[ext] structure Outcome where
  ending : Ending
  output : Output
  deriving DecidableEq

/-- What the arguments and the settings lead to. -/
inductive Plan where
  | finished (o : Outcome)
  | once (o : Options)
  | watch (o : Options) (p : Path)

def usageError (f : UsageFault) : Output :=
  ⟨[], usage ++ programName ++ ": error: " ++ f.message ++ "\n"⟩

/-- The settings cannot be used. -/
def invalidSettings (message : Text) : Outcome :=
  ⟨.status 2, .complaint ("invalid config: " ++ message)⟩

def plan (capacity : Toml.Capacity) (words : List Text) (files : Files) : Plan :=
  match Arguments.ofWords words with
  | .error .help => .finished ⟨.status 0, ⟨help, []⟩⟩
  | .error (.fault f) => .finished ⟨.status 2, usageError f⟩
  | .ok a =>
    match Options.ofArguments capacity files a with
    | .error (.document text failure) => .finished (invalidSettings (failure.message text))
    | .error (.unreachable e p) => .finished (invalidSettings (e.message p))
    | .error (.escape e) => .finished ⟨.escape e, .empty⟩
    | .ok o =>
      if o.watch then
        match o.input with
        | none => .finished ⟨.status 2, .complaint "--watch needs an input file"⟩
        | some p => .watch o p
      else .once o

def readLine (o : Options) (source : Text) : Text :=
  "read " ++ Text.ofNat source.length ++ " chars from " ++ inputLabel o

/-- Processes the input once. -/
def once (o : Options) (files : Files) (standardInput : Bytes) : Outcome :=
  match o.input.bind Path.fault? with
  | some fault => ⟨.escape (.path fault), .empty⟩
  | none =>
    match readInput o files standardInput with
    | .error e => ⟨.status 2, unreadable o e⟩
    | .ok source =>
      let (output, failed) := process o source
      ⟨.status (if failed then 1 else 0), .detail o "cli" (readLine o source) ++ output⟩

/-- A whole run: what it prints, up to each pause of a watch and behind the last one. -/
structure Session where
  outputs : List Output
  ending : Ending

/-- Runs the command while the files go through several states, one for each look of a watch, which
is broken off behind the last one. -/
def session (capacity : Toml.Capacity) (words : List Text) (first : Files) (later : List Files)
    (standardInput : Bytes) : Session :=
  match plan capacity words first with
  | .finished o => ⟨[o.output], o.ending⟩
  | .once o =>
    let outcome := once o first standardInput
    ⟨[outcome.output], outcome.ending⟩
  | .watch o p =>
    match p.fault? with
    | some fault => ⟨[announcement p], .escape (.path fault)⟩
    | none =>
      match polls o p unseen (first :: later) with
      | [] => ⟨[.empty], .status 0⟩
      | seen :: others => ⟨(announcement p ++ seen) :: others ++ [.empty], .status 0⟩

/-- Runs the command on files that stay as they are. -/
def run (capacity : Toml.Capacity) (words : List Text) (files : Files) (standardInput : Bytes) :
    Outcome :=
  let s := session capacity words files [] standardInput
  ⟨s.ending, s.outputs.foldl Output.append .empty⟩

end LenSyntax.Command

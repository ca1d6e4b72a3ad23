import LenSyntax.Command.Run

/-! The command at a terminal. It looks at the files that its arguments name, and what is printed is
decided by the run. -/
namespace LenSyntax.Command

def stampOf (t : IO.FS.SystemTime) : Stamp := .ofTime t.sec t.nsec.toNat

/-- The room that there is for settings. -/
def capacity : Toml.Capacity := .ofFrames 986

/-- Some numbers come negated, in 32 bits. -/
def fileError : IO.Error → FileError
  | .noFileOrDirectory _ code reason | .interrupted _ code reason
  | .alreadyExists _ code reason | .invalidArgument _ code reason
  | .permissionDenied _ code reason | .resourceExhausted _ code reason
  | .inappropriateType _ code reason | .noSuchThing _ code reason
  | .otherError code reason | .resourceBusy code reason | .resourceVanished code reason
  | .unsupportedOperation code reason | .hardwareFault code reason
  | .unsatisfiedConstraints code reason | .illegalOperation code reason
  | .protocolError code reason | .timeExpired code reason =>
    .ofCode code.toInt32.toInt.natAbs reason
  | .unexpectedEof => .other 5 "Input/output error"
  | .userError reason => .other 5 reason

/-- The file with a name that is there. -/
def readNow (name : String) (changed : Stamp) : IO Entry := do
  try return .file (← IO.FS.readBinFile (System.mkFilePath [name])).toList changed
  catch e => return .locked (fileError e) changed

/-- What is at a path now. -/
def lookNow (p : Path) : IO (Except FileError Entry) := do
  match p.text.toString? with
  | none => return .error .notFound
  | some name =>
    try
      let found ← (System.mkFilePath [name]).metadata
      let changed := stampOf found.modified
      match found.type with
      | .dir => return .ok (.folder changed)
      | _ => return .ok (← readNow name changed)
    catch e => return .error (fileError e)

/-- The files that words lead to, as they are now. -/
def filesNow (words : List Text) : IO Files := do
  let paths := match Arguments.ofWords words with
    | .ok a => (Options.inputPath a.input).toList ++ [Options.settingsPath a]
    | .error _ => []
  let seen ← paths.mapM fun p => return (p, ← lookNow p)
  return fun p => (seen.lookup p).getD (.error .notFound)

def emit (o : Output) : IO Unit := do
  let out ← IO.getStdout
  out.write ⟨(Utf8.encode o.out).toArray⟩
  out.flush
  let err ← IO.getStderr
  err.write ⟨(Utf8.encode o.err).toArray⟩
  err.flush

def finish (o : Outcome) : IO UInt32 := do
  emit o.output
  match o.ending with
  | .status n => return .ofNat n
  | .escape e =>
    emit (.complaint e.message)
    return 1

/-- Looks at a file twice a second, until the process is stopped. -/
partial def watchFrom (o : Options) (p : Path) (last : Stamp) : IO UInt32 := do
  let entry ← lookNow p
  let (last, output) := poll o p last fun _ => entry
  emit output
  IO.sleep 500
  watchFrom o p last

/-- Runs the command with the words of a command line. -/
def atTerminal (words : List Text) : IO UInt32 := do
  let files ← filesNow words
  match plan capacity words files with
  | .finished o => finish o
  | .once o =>
    let input ← match o.input with
      | none => (← IO.getStdin).readBinToEnd
      | some _ => pure .empty
    finish (once o files input.toList)
  | .watch o p =>
    emit (announcement p)
    match p.fault? with
    | some fault => finish ⟨.escape (.path fault), .empty⟩
    | none => watchFrom o p unseen

end LenSyntax.Command

def main (args : List String) : IO UInt32 :=
  LenSyntax.Command.atTerminal (args.map LenSyntax.Text.ofString)

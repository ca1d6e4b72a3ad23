import LenSyntax.Command.Process

/-! Watching a file: it is processed when it is first seen and whenever its time of change differs
from the one seen before. -/
namespace LenSyntax.Command

/-- The time of change before the file has been seen. -/
def unseen : Stamp := 0

/-- What processing the file prints, or why it cannot be read. -/
def reprocess (o : Options) (files : Files) : Output :=
  match readInput o files [] with
  | .ok source => (process o source).1
  | .error e => unreadable o e

/-- One look at the file: the time of change to remember, and what is printed. A file that is not
there is passed over. -/
def poll (o : Options) (p : Path) (last : Stamp) (files : Files) : Stamp × Output :=
  match files p with
  | .error _ => (last, .empty)
  | .ok entry =>
    if entry.changed == last then (last, .empty) else (entry.changed, reprocess o files)

/-- What is printed by one look at each of several states of the files. -/
def polls (o : Options) (p : Path) (last : Stamp) : List Files → List Output
  | [] => []
  | files :: later => (poll o p last files).2 :: polls o p (poll o p last files).1 later

def announcement (p : Path) : Output := ⟨[], "Watching " ++ p.text ++ " for changes...\n"⟩

end LenSyntax.Command

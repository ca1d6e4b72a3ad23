import LenSyntax.Files.Path
import LenSyntax.Text.Quoted
import LenSyntax.Text.Utf8

/-! Files as a program sees them: at a path there is an entry with its time of change, or it cannot
be reached. -/
namespace LenSyntax

/-- A time of change, in seconds. It is a single double, so times that differ by less than that can
tell are the same. -/
abbrev Stamp := Float

/-- The time so many seconds and nanoseconds after the epoch. -/
def Stamp.ofTime (seconds : Int) (nanoseconds : Nat) : Stamp :=
  .ofInt seconds + 1e-9 * .ofNat nanoseconds

inductive FileError where
  | notFound
  | noPermission
  | notDirectory
  | isDirectory
  | nameTooLong
  | tooManyLinks
  | badDescriptor
  | other (code : Nat) (reason : Text)
  deriving DecidableEq

namespace FileError

def code : FileError → Nat
  | notFound => 2
  | noPermission => 13
  | notDirectory => 20
  | isDirectory => 21
  | nameTooLong => 36
  | tooManyLinks => 40
  | badDescriptor => 9
  | other code _ => code

def reason : FileError → Text
  | notFound => "No such file or directory"
  | noPermission => "Permission denied"
  | notDirectory => "Not a directory"
  | isDirectory => "Is a directory"
  | nameTooLong => "File name too long"
  | tooManyLinks => "Too many levels of symbolic links"
  | badDescriptor => "Bad file descriptor"
  | other _ reason => reason

/-- The errors that have a name. -/
def named : List FileError :=
  [notFound, noPermission, notDirectory, isDirectory, nameTooLong, tooManyLinks, badDescriptor]

/-- The error with a number; the reason is taken where the number is none of those named. -/
def ofCode (code : Nat) (reason : Text) : FileError :=
  (named.find? (·.code = code)).getD (other code reason)

/-- The message of an error at a path. -/
def message (e : FileError) (p : Path) : Text :=
  "[Errno " ++ Text.ofNat e.code ++ "] " ++ e.reason ++ ": " ++ p.text.quoted

/-- Whether nothing is there, as opposed to something that cannot be reached. -/
def isAbsence : FileError → Bool
  | notFound | notDirectory | tooManyLinks | badDescriptor => true
  | noPermission | isDirectory | nameTooLong | other _ _ => false

end FileError

/-- A file is `locked` if it is there, and reading it fails. -/
inductive Entry where
  | file (content : Bytes) (changed : Stamp)
  | locked (e : FileError) (changed : Stamp)
  | folder (changed : Stamp)

def Entry.changed : Entry → Stamp
  | file _ changed => changed
  | locked _ changed => changed
  | folder changed => changed

/-- What there is at each path. -/
abbrev Files := Path → Except FileError Entry

/-- The content of the file at a path. -/
def Files.read (files : Files) (p : Path) : Except FileError Bytes :=
  match files p with
  | .ok (.file content _) => .ok content
  | .ok (.locked e _) => .error e
  | .ok (.folder _) => .error .isDirectory
  | .error e => .error e

end LenSyntax

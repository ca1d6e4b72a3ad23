import LenSyntax.Position

/-! Diagnostics: problems of a source that are collected, never raised. -/
namespace LenSyntax

inductive Severity where
  | error
  | warning
  deriving DecidableEq, Repr

namespace Severity

def all : List Severity := [.error, .warning]

def name : Severity → Text
  | .error => "error"
  | .warning => "warning"

end Severity

@[ext] structure Diagnostic where
  severity : Severity
  message : Text
  span : Span
  deriving DecidableEq

namespace Diagnostic

def error (message : Text) (span : Span) : Diagnostic := ⟨.error, message, span⟩

def warning (message : Text) (span : Span) : Diagnostic := ⟨.warning, message, span⟩

/-- Position, severity and message on one line. -/
def brief (d : Diagnostic) : Text :=
  d.span.start.label ++ ": " ++ d.severity.name ++ ": " ++ d.message

end Diagnostic

namespace Diagnostics

def hasErrors (ds : List Diagnostic) : Bool := ds.any (·.severity = .error)

@[simp] theorem hasErrors_nil : hasErrors [] = false := rfl

@[simp] theorem hasErrors_error (message : Text) (span : Span) (ds : List Diagnostic) :
    hasErrors (.error message span :: ds) = true := rfl

@[simp] theorem hasErrors_warning (message : Text) (span : Span) (ds : List Diagnostic) :
    hasErrors (.warning message span :: ds) = hasErrors ds := rfl

@[simp] theorem hasErrors_append (ds es : List Diagnostic) :
    hasErrors (ds ++ es) = (hasErrors ds || hasErrors es) := List.any_append

/-- In order of start offset; those that start together keep their order. -/
def sorted (ds : List Diagnostic) : List Diagnostic :=
  ds.mergeSort fun a b => a.span.start.offset ≤ b.span.start.offset

/-- One brief line for each diagnostic. -/
def brief (ds : List Diagnostic) : Text := Text.unlines (ds.map (·.brief))

end Diagnostics
end LenSyntax

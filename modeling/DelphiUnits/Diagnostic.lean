import DelphiUnits.Json.Basic

/-!
# Diagnostics

What is worth saying about a file that could be handled: a warning where something is lost,
an information where something was left out.
-/

namespace DelphiUnits

/-- How much a diagnostic matters. -/
inductive Severity where
  | warning
  | info
  deriving DecidableEq, Repr

namespace Severity

/-- The word for a severity. -/
def word : Severity → String
  | .warning => "warning"
  | .info => "info"

end Severity

/-- A message about a file. -/
structure Diagnostic where
  /-- How much it matters. -/
  severity : Severity
  /-- The part of the work that it comes from. -/
  stage : String
  /-- What it says. -/
  message : String
  /-- The place in the unit that it is about. -/
  location : Option String
  deriving DecidableEq, Repr

namespace Diagnostic

/-- A warning about no place in particular. -/
def warning (stage message : String) : Diagnostic := ⟨.warning, stage, message, none⟩

/-- An information about no place in particular. -/
def info (stage message : String) : Diagnostic := ⟨.info, stage, message, none⟩

/-- A diagnostic with a place. -/
def located (d : Diagnostic) (location : String) : Diagnostic :=
  { d with location := some location }

/-- Whether a diagnostic is a warning. -/
def isWarning (d : Diagnostic) : Bool := d.severity == .warning

/-- A diagnostic on one line. -/
def display (d : Diagnostic) : String :=
  d.severity.word ++ ": " ++ d.message ++
    match d.location with
    | some location => " (in " ++ location ++ ")"
    | none => ""

/-- Write a diagnostic. -/
def toJson (d : Diagnostic) : Json :=
  .record [("severity", .text d.severity.word), ("stage", .text d.stage),
    ("message", .text d.message), ("location", .optionalText d.location)]

end Diagnostic

end DelphiUnits

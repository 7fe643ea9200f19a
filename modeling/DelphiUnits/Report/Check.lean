import DelphiUnits.Report.Build

/-!
# Checking a project

A check generates the files of all entries of a project, writes none of them, and shows
everything there was to say.
-/

namespace DelphiUnits.Check

open DelphiUnits.Report (Event)

/-- An entry whose file could be generated. -/
structure CheckedFile where
  /-- The source file as it is shown. -/
  source : String
  /-- What there was to say. -/
  diagnostics : List Diagnostic
  deriving DecidableEq, Repr

/-- What a check found. -/
structure Report where
  /-- The manifest file. -/
  manifest : Path
  /-- The entries whose files could be generated. -/
  files : List CheckedFile
  /-- The entries that failed. -/
  failures : List Failure
  /-- The main file, if it is not there. -/
  missingMain : Option String

/-- Check one entry. -/
def checkFile (o : Project.FileOutcome) : Except Failure CheckedFile :=
  match o.result with
  | .ok g => .ok ⟨o.entry.label, g.diagnostics⟩
  | .error error => .error (.ofError o.entry error)

/-- **Check a project**; none if there is no input root. -/
def run? (p : Project) (manifest : Path) (fs : FileSystem) : Option Report :=
  (p.generateAll? fs).map fun outcomes =>
    let results := outcomes.files.map checkFile
    ⟨manifest, results.filterMap Except.toOption, results.filterMap Failure.ofResult?,
      outcomes.missingMain⟩

namespace Report

/-- Whether all files could be generated. -/
def isValid (r : Report) : Bool :=
  r.failures.isEmpty

/-- The number of warnings; a main file that is not there is one. -/
def warningCount (r : Report) : Nat :=
  ((r.files.flatMap (·.diagnostics)).filter (·.isWarning)).length +
    if r.missingMain.isSome then 1 else 0

end Report

/-! ### Showing a check -/

/-- The place a diagnostic is about, in its file. -/
def placeOf (source : String) (d : Diagnostic) : String :=
  match d.location with
  | some location => source ++ ": " ++ location
  | none => source

/-- How a diagnostic is shown. -/
def diagnosticEvent (source : String) (d : Diagnostic) : Event :=
  match d.severity with
  | .warning => .warning (d.message ++ "\n  --> " ++ placeOf source d)
  | .info => .preformatted ("info: " ++ d.message ++ "\n  --> " ++ placeOf source d)

/-- The last line of a check. -/
def verdict (r : Report) : String :=
  if r.isValid then
    "✓ " ++ toString r.files.length ++ " files in " ++ r.manifest.text ++ " translate (" ++
      toString r.warningCount ++ " warnings)"
  else
    "✗ " ++ toString r.failures.length ++ " of " ++
      toString (r.files.length + r.failures.length) ++ " files failed to translate"

/-- **How a check is shown.** -/
def Report.events (r : Report) : List Event :=
  Report.missingMainEvents r.missingMain ++
    r.files.flatMap (fun f => f.diagnostics.map (diagnosticEvent f.source)) ++
    r.failures.map (.error ·.rendered) ++
    (if 0 < r.warningCount ∨ !r.isValid then [.newline] else []) ++
    [.preformatted (verdict r)]

end DelphiUnits.Check

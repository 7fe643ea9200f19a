import DelphiUnits.Project
import DelphiUnits.Report.Event

/-!
# Building a project

A build generates the files of all entries of a project and brings them up to date. A dry
run shows the generated texts and writes nothing. An entry whose file cannot be generated or
written is a failure; every entry is either a file or a failure.
-/

namespace DelphiUnits

/-- An entry that failed. -/
structure Failure where
  /-- The source file as it is shown. -/
  source : String
  /-- The error as it is shown. -/
  rendered : String
  deriving DecidableEq, Repr

/-- The failure of an entry whose file cannot be generated. -/
def Failure.ofError (e : Entry) (error : Pascal.DraftError) : Failure :=
  ⟨e.label, error.problem.summary⟩

/-- The failure of an entry whose file cannot be written. -/
def Failure.ofWrite (e : Entry) : Failure :=
  ⟨e.label, "failed to write '" ++ e.output.text ++ "'"⟩

/-- The failure in a result. -/
def Failure.ofResult? {α : Type} : Except Failure α → Option Failure
  | .ok _ => none
  | .error failure => some failure

namespace Build

/-- What became of a generated file. -/
inductive Status where
  | written
  | unchanged
  | preview (content : String)
  deriving DecidableEq, Repr

/-- A generated file. -/
structure BuiltFile where
  /-- The source file as it is shown. -/
  source : String
  /-- The generated file. -/
  output : Path
  /-- What became of it. -/
  status : Status
  /-- The messages of the warnings. -/
  warnings : List String
  deriving DecidableEq, Repr

/-- What a build did. -/
structure Report where
  /-- The directory of the generated files. -/
  outputRoot : Path
  /-- The files that were generated. -/
  files : List BuiltFile
  /-- The entries that failed. -/
  failures : List Failure
  /-- The main file, if it is not there. -/
  missingMain : Option String
  /-- Whether nothing was written. -/
  dryRun : Bool

/-- Whether an entry failed. -/
def Report.hasFailures (r : Report) : Bool :=
  !r.failures.isEmpty

/-- The messages of the warnings among diagnostics. -/
def warningsOf (diagnostics : List Diagnostic) : List String :=
  (diagnostics.filter (·.isWarning)).map (·.message)

/-- The record of a generated file. -/
def builtFile (e : Entry) (g : GeneratedFile) (status : Status) : BuiltFile :=
  ⟨e.label, e.output, status, warningsOf g.diagnostics⟩

/-- **Build one entry** of which it is known what became of it. -/
def buildFile (dryRun : Bool) (fs : FileSystem) (o : Project.FileOutcome) :
    FileSystem × Except Failure BuiltFile :=
  match o.result with
  | .error error => (fs, .error (.ofError o.entry error))
  | .ok g =>
    if dryRun then (fs, .ok (builtFile o.entry g (.preview g.content)))
    else
      match fs.update o.entry.output g.content with
      | (fs, .written) => (fs, .ok (builtFile o.entry g .written))
      | (fs, .unchanged) => (fs, .ok (builtFile o.entry g .unchanged))
      | (fs, .failed) => (fs, .error (.ofWrite o.entry))

/-- Build entries one after the other. -/
def buildFiles (dryRun : Bool) (fs : FileSystem) :
    List Project.FileOutcome → FileSystem × List (Except Failure BuiltFile)
  | [] => (fs, [])
  | o :: rest =>
    let (fs, result) := buildFile dryRun fs o
    let (fs, results) := buildFiles dryRun fs rest
    (fs, result :: results)

/-- **Build a project**; none if there is no input root. -/
def run? (p : Project) (dryRun : Bool) (fs : FileSystem) : Option (FileSystem × Report) :=
  (p.generateAll? fs).map fun outcomes =>
    let (fs, results) := buildFiles dryRun fs outcomes.files
    (fs, ⟨p.outputRoot, results.filterMap Except.toOption, results.filterMap Failure.ofResult?,
      outcomes.missingMain, dryRun⟩)

/-! ### Showing a build -/

open DelphiUnits.Report (Event)

/-- A number of files in words. -/
def fileCount (n : Nat) : String :=
  if n = 1 then "1 file" else toString n ++ " files"

/-- A text without the blanks at its end. -/
def previewText (content : String) : String :=
  String.ofList (Text.trimEnd content.toList)

/-- How a file is shown in a dry run. -/
def previewEvents (file : BuiltFile) : List Event :=
  match file.status with
  | .preview content => [.divider file.output.text, .preformatted (previewText content)]
  | _ => []

/-- How a file is shown that was brought up to date. -/
def writtenEvent (file : BuiltFile) : Event :=
  match file.status with
  | .unchanged => .listItem (file.output.text ++ " (unchanged)")
  | _ => .addedItem file.output.text

/-- How the files of a build are shown. -/
def fileEvents (r : Report) : List Event :=
  if r.dryRun then r.files.flatMap previewEvents ++ [.divider "Summary"]
  else .keyValue "Output" r.outputRoot.text :: r.files.map writtenEvent

/-- How the warnings about a file are shown. -/
def warningEvents (file : BuiltFile) : List Event :=
  file.warnings.map fun w => .warning (w ++ " (" ++ file.source ++ ")")

/-- **How a build is shown.** -/
def Report.events (r : Report) : List Event :=
  Report.missingMainEvents r.missingMain ++ r.files.flatMap warningEvents ++ fileEvents r ++
    r.failures.flatMap (fun f => [.newline, .error f.rendered]) ++
    [.newline, .preformatted (fileCount r.files.length ++ " translated, " ++
      toString r.failures.length ++ " failed")]

end Build

end DelphiUnits

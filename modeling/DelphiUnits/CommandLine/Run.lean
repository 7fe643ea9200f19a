import DelphiUnits.CommandLine.Arguments
import DelphiUnits.Report.Check
import DelphiUnits.Report.Explain

/-!
# Carrying out commands

A command works on a file system. It leaves a file system, two texts for the output and the
error stream, and an exit code: zero for success, one for a command that failed, two for
arguments that make no sense.
-/

namespace DelphiUnits.CommandLine

/-- What a command leaves. -/
structure Result where
  /-- The exit code. -/
  exitCode : Nat
  /-- The text for the output stream. -/
  output : String
  /-- The text for the error stream. -/
  errorOutput : String
  deriving DecidableEq, Repr

namespace Result

/-- A command that failed before it had anything to show. -/
def failure (message : String) : Result := ⟨1, "", message ++ "\n"⟩

/-- A command that succeeded with a text. -/
def success (output : String) : Result := ⟨0, output, ""⟩

/-- A report that is shown. -/
def ofEvents (events : List Report.Event) (failed : Bool) : Result :=
  ⟨if failed then 1 else 0, Report.output events, Report.errorOutput events⟩

end Result

/-- The name of the program and its version. -/
def versionText : String := "ts2delphi 0.1.0\n"

/-- How the program is used. -/
def helpText : String :=
  "Translate TypeScript AST documents into Pascal units\n\n" ++
  "Usage: ts2delphi [OPTIONS] <COMMAND>\n\n" ++
  "Commands:\n" ++
  "  init         Create a ts2delphi.toml in the current directory\n" ++
  "  build        Translate every AST document of the project\n" ++
  "  check        Translate without writing and report diagnostics\n" ++
  "  explain      Show the lexer stages and the unit model built for one AST document\n" ++
  "  completions  Generate shell completions\n" ++
  "  help         Print this message or the help of the given subcommand(s)\n\n" ++
  "Options:\n" ++
  "  -v, --verbose  Log debug output\n" ++
  "  -h, --help     Print help\n" ++
  "  -V, --version  Print version\n"

/-- The words a shell can complete the program's arguments with. -/
def completionsText (shell : String) : String :=
  let words := " ".intercalate (Verb.all.map Verb.name ++ ["help"])
  match shell with
  | "bash" => "complete -W \"" ++ words ++ "\" ts2delphi\n"
  | "fish" => "complete -c ts2delphi -f -a \"" ++ words ++ "\"\n"
  | "zsh" => "compctl -k \"(" ++ words ++ ")\" ts2delphi\n"
  | _ => words ++ "\n"

/-- Read the manifest of a project and put what was given in the place of its values. Paths
given there start from the working directory. -/
def openProject (fs : FileSystem) (a : ProjectArguments) : Except Manifest.Error ManifestFile :=
  match ManifestFile.load fs a.config with
  | .error e => .error e
  | .ok file => file.override ⟨a.input.map fs.absolute, a.output.map fs.absolute, a.main⟩

/-- What a new project is greeted with. -/
def createdText (path : Path) : String :=
  "Created " ++ path.text ++ "\n\nNext steps:\n" ++
    "  put AST documents (*.ast.json) under src/\n  ts2delphi build\n"

/-- Create the manifest of a new project. -/
def runInit (fs : FileSystem) (directory : Path) (force : Bool) : FileSystem × Result :=
  let path := directory.join ⟨Manifest.fileName⟩
  if fs.pathExists path && !force then
    (fs, .failure (path.text ++ " already exists (use --force to overwrite)"))
  else
    match fs.update path Manifest.template with
    | (fs, .failed) => (fs, .failure ("Failed to write " ++ path.text))
    | (fs, _) => (fs, .success (createdText path))

/-- Build a project. -/
def runBuild (fs : FileSystem) (a : ProjectArguments) (dryRun : Bool) : FileSystem × Result :=
  match openProject fs a with
  | .error e => (fs, .failure e.problem.summary)
  | .ok file =>
    let project := Project.ofManifest file
    match Build.run? project dryRun fs with
    | none => (fs, .failure project.missingInput)
    | some (fs, report) => (fs, .ofEvents report.events report.hasFailures)

/-- Check a project. -/
def runCheck (fs : FileSystem) (a : ProjectArguments) : Result :=
  match openProject fs a with
  | .error e => .failure e.problem.summary
  | .ok file =>
    let project := Project.ofManifest file
    match Check.run? project file.path fs with
    | none => .failure project.missingInput
    | some report => .ofEvents report.events !report.isValid

/-- Explain a document. -/
def runExplain (fs : FileSystem) (a : ProjectArguments) (document : Path) (json : Bool) :
    Result :=
  match openProject fs a with
  | .error e => .failure e.problem.summary
  | .ok file =>
    let project := Project.ofManifest file
    match project.entry? document with
    | none =>
      .failure ("'" ++ document.text ++ "' is not an AST document (expected a *" ++
        Source.Document.extension ++ " file)")
    | some entry =>
      match Explain.run project fs entry with
      | .error e => .failure e.problem.summary
      | .ok report =>
        if json then .success (report.toJson.pretty ++ "\n")
        else .ofEvents report.events false

/-- **Carry out a command.** -/
def execute (fs : FileSystem) : Command → FileSystem × Result
  | .init directory force => runInit fs directory force
  | .build project dryRun => runBuild fs project dryRun
  | .check project => (fs, runCheck fs project)
  | .explain project document json => (fs, runExplain fs project document json)
  | .completions shell => (fs, .success (completionsText shell))

/-- **Run the program** with its arguments. -/
def run (fs : FileSystem) (args : List String) : FileSystem × Result :=
  match parse args with
  | .ok command => execute fs command
  | .error .help => (fs, .success helpText)
  | .error .version => (fs, .success versionText)
  | .error (.usage message) => (fs, ⟨2, "", "error: " ++ message ++ "\n"⟩)

end DelphiUnits.CommandLine

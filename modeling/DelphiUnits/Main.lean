import DelphiUnits.CommandLine.Run

/-!
# The program

The commands work on file systems as values. Here the part of the file system that a command
looks at is read, the command is carried out, and what it changed is written back.
-/

namespace DelphiUnits.CommandLine

/-! ### What a command looks at -/

/-- The arguments about the project, if a command is about one. -/
def Command.project? : Command → Option ProjectArguments
  | .init _ _ => none
  | .build project _ => some project
  | .check project => some project
  | .explain project _ _ => some project
  | .completions _ => none

/-- The project that a command is about, once its manifest has been read. -/
def Command.openProject? (fs : FileSystem) (command : Command) : Option Project :=
  match command.project?.map (openProject fs) with
  | some (.ok file) => some (.ofManifest file)
  | _ => none

/-- The files that a command names itself. -/
def Command.namedFiles : Command → List Path
  | .init directory _ => [directory.join ⟨Manifest.fileName⟩]
  | .build project _ => [project.config]
  | .check project => [project.config]
  | .explain project document _ => [project.config, document]
  | .completions _ => []

/-- The generated files of a project, once its documents have been read. -/
def generatedFiles (fs : FileSystem) (project : Project) : List Path :=
  ((project.discover? fs).getD []).map Entry.output

/-! ### Reading and writing back -/

/-- The absolute path of a place. -/
def placeText (place : Place) : String :=
  "/" ++ "/".intercalate place

/-- Read what is at a place. What cannot be read is left out. -/
def readAt (fs : FileSystem) (place : Place) : IO FileSystem := do
  let here := (← IO.currentDir) / placeText place
  if ← here.isDir then return fs.putAt place .directory
  try
    return fs.putAt place (.file (← IO.FS.readBinFile here))
  catch _ =>
    return fs

/-- Read what is below a directory. Links are not followed. -/
partial def readBelow (fs : FileSystem) (place : Place) : IO FileSystem := do
  let here := (← IO.currentDir) / placeText place
  let mut fs := fs
  for entry in ← here.readDir do
    let inner := place ++ [entry.fileName]
    match (← entry.path.symlinkMetadata).type with
    | .dir => fs ← readBelow (fs.putAt inner .directory) inner
    | .file => fs ← readAt fs inner
    | _ => pure ()
  return fs

/-- Read what a path leads to, and the directories on the way there. -/
def readAlong (fs : FileSystem) (place : Place) : List Path.Segment → IO FileSystem
  | [] => readAt fs place
  | segment :: rest => do
    let fs ← readAt fs place
    if fs.isDirectoryAt place then readAlong fs (FileSystem.stepFrom place segment) rest
    else return fs

/-- Read what a path leads to. -/
def readPath (fs : FileSystem) (path : Path) : IO FileSystem :=
  if FileSystem.isUsable path then
    let (start, segments) := fs.startOf path
    readAlong fs [] (start.map String.toList ++ segments)
  else pure fs

/-- Read the directory that a path leads to with all that is below it. -/
def readTree (fs : FileSystem) (path : Path) : IO FileSystem := do
  let fs ← readPath fs path
  match fs.locate? path with
  | some place => if fs.isDirectoryAt place then readBelow fs place else return fs
  | none => return fs

/-- Write what changed from one file system to the next. -/
def writeChanges (before after : FileSystem) : IO Unit :=
  after.nodes.forM fun (place, node) => do
    if before.node? place != some node then
      match node with
      | .directory => IO.FS.createDirAll (placeText place)
      | .file content => IO.FS.writeBinFile (placeText place) content

/-- The file system with nothing in it but the working directory. -/
def emptyAt (workingDirectory : String) : FileSystem :=
  ⟨[], (Path.mk workingDirectory).components.filterMap fun
    | .name s => some s
    | _ => none⟩

/-- The part of the file system that a command is about. -/
def readFor (fs : FileSystem) (command : Command) : IO FileSystem := do
  let fs ← command.namedFiles.foldlM readPath fs
  match command.openProject? fs with
  | none => return fs
  | some project =>
    let fs ← readTree fs project.inputRoot
    (generatedFiles fs project).foldlM readPath fs

end DelphiUnits.CommandLine

open DelphiUnits in
/-- Run the program. -/
def main (args : List String) : IO UInt32 := do
  let empty := CommandLine.emptyAt (← IO.currentDir).toString
  let before ← match CommandLine.parse args with
    | .ok command => CommandLine.readFor empty command
    | .error _ => pure empty
  let (after, result) := CommandLine.run before args
  CommandLine.writeChanges before after
  IO.print result.output
  IO.eprint result.errorOutput
  return result.exitCode.toUInt32

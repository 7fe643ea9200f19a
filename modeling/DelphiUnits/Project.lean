import DelphiUnits.FileSystem
import DelphiUnits.Manifest.Validation
import DelphiUnits.GeneratedFile

/-!
# Projects

A project is a directory of documents, a directory for generated files, and settings. Each
document below the input root is an **entry**: it stands for a source file of the same name,
and its generated file lies at the same place below the output root.

Files are generated one by one, so that a document that fails does not stop the others.

Names of files are texts, so the name of a document can be cut and a path compared with the
main file as they are.
-/

namespace DelphiUnits

open Pascal (DraftError Draft)
open Source (Document)

/-! ### Manifest files -/

/-- A manifest with the file it was read from. -/
structure ManifestFile where
  /-- The file. -/
  path : Path
  /-- Its text. -/
  content : String
  /-- What it says. -/
  manifest : Manifest
  deriving DecidableEq, Repr

namespace ManifestFile

/-- Read a manifest file. -/
def load (fs : FileSystem) (path : Path) : Except Manifest.Error ManifestFile :=
  match fs.readText? path with
  | none => .error (.unreadable path)
  | some content => (Manifest.parse content).map fun manifest => ⟨path, content, manifest⟩

/-- The directory of a manifest file, which its paths start from. -/
def rootDirectory (f : ManifestFile) : Path :=
  match f.path.parent? with
  | some parent => if parent.text = "" then ⟨"."⟩ else parent
  | none => ⟨"."⟩

/-- The directory of the documents. -/
def inputDirectory (f : ManifestFile) : Path :=
  f.rootDirectory.join f.manifest.locations.input

/-- The directory of the generated files. -/
def outputDirectory (f : ManifestFile) : Path :=
  f.rootDirectory.join f.manifest.locations.output

/-- Replace values of the manifest. -/
def override (f : ManifestFile) (o : Manifest.Overrides) : Except Manifest.Error ManifestFile :=
  match f.manifest.override o with
  | (.ok (), manifest) => .ok { f with manifest }
  | (.error e, _) => .error e

end ManifestFile

/-! ### Projects -/

/-- A project. -/
structure Project where
  /-- The settings, the input root among them. -/
  settings : Settings
  /-- The directory of the generated files. -/
  outputRoot : Path
  /-- The main file below the input root. -/
  main : Option String
  deriving DecidableEq, Repr

/-- A document of a project. -/
structure Entry where
  /-- The file that holds the document. -/
  document : Path
  /-- The source file below the input root. -/
  source : Path
  /-- The generated file. -/
  output : Path
  /-- The name of the unit. -/
  name : String
  /-- Whether it is the main file. -/
  isMain : Bool
  deriving DecidableEq, Repr

namespace Entry

/-- Which file the document stands for. -/
def request (e : Entry) : Request :=
  ⟨e.name, e.source, e.isMain⟩

/-- The source file as it is shown. -/
def label (e : Entry) : String :=
  Text.forwardSlashes e.source.text

end Entry

namespace Project

/-- The main file as it is compared: with slashes, and without a leading `./`. -/
def normalizeMain (main : String) : String :=
  match (Text.forwardSlashes main).toList with
  | '.' :: '/' :: rest => String.ofList rest
  | cs => String.ofList cs

/-- A project with a main file as it is written. -/
def create (settings : Settings) (outputRoot : Path) (main : Option String) : Project :=
  ⟨settings, outputRoot, main.map normalizeMain⟩

/-- The project that a manifest file describes. -/
def ofManifest (f : ManifestFile) : Project :=
  create (f.manifest.settings f.inputDirectory) f.outputDirectory f.manifest.locations.main

/-- The directory of the documents. -/
def inputRoot (p : Project) : Path := p.settings.inputRoot

/-- Whether a source file is the main file, by its text with slashes. -/
def isMain (p : Project) (source : Path) : Bool :=
  p.main == some (Text.forwardSlashes source.text)

/-! ### Entries -/

/-- The name of a unit, if a file name is that of a document. A file name is a text. -/
def stem? (fileName : String) : Option String :=
  let suffix := Document.extension.toList
  let cs := fileName.toList
  if suffix.isSuffixOf cs ∧ suffix.length < cs.length then
    some (String.ofList (cs.take (cs.length - suffix.length)))
  else none

/-- The **entry of a document**, given where it lies below the input root. -/
def entryAt? (p : Project) (document relative : Path) : Option Entry := do
  let stem ← stem? (← relative.fileName?)
  let directory := relative.parent?.getD ⟨""⟩
  let source := directory.join ⟨stem ++ ".ts"⟩
  let output := (p.outputRoot.join directory).join ⟨stem ++ ".pas"⟩
  some ⟨document, source, output, stem, p.isMain source⟩

/-- A path without the current directory at its start. -/
def stripCurrent (path : Path) : Path :=
  (path.stripBase? ⟨"."⟩).getD path

/-- Where a document lies below the input root. One that lies elsewhere goes by its name. -/
def relativeTo? (p : Project) (document : Path) : Option Path :=
  ((stripCurrent document).stripBase? (stripCurrent p.inputRoot)).or
    (document.fileName?.map Path.mk)

/-- **The entry of one document**, which may lie outside the input root. -/
def entry? (p : Project) (document : Path) : Option Entry :=
  (p.relativeTo? document).bind (p.entryAt? document)

/-- The entry of a file that was found below the input root. -/
def entryOfPlace? (p : Project) (place : Place) : Option Entry :=
  p.entryAt? (p.inputRoot.joinNames place) (.ofNames place)

/-- **The entries of all documents** below the input root, in the order of their places;
none if the input root cannot be listed. -/
def discover? (p : Project) (fs : FileSystem) : Option (List Entry) :=
  (fs.listFiles? p.inputRoot).map fun places => places.filterMap p.entryOfPlace?

/-! ### Generated files -/

/-- Read the document of an entry. -/
def readDocument (fs : FileSystem) (e : Entry) : Except DraftError Document :=
  match fs.readText? e.document with
  | none => .error (.document (.unreadable e.document.text))
  | some content =>
    match Document.parse content with
    | .ok d => .ok d
    | .error error => .error (.document error)

/-- **Generate the file of an entry.** -/
def generateEntry (p : Project) (fs : FileSystem) (e : Entry) :
    Except DraftError GeneratedFile :=
  match readDocument fs e with
  | .ok d => generate p.settings e.request d
  | .error error => .error error

/-- An entry with what became of it. -/
structure FileOutcome where
  /-- The entry. -/
  entry : Entry
  /-- Its generated file, or why there is none. -/
  result : Except DraftError GeneratedFile

/-- What became of a project. -/
structure Outcomes where
  /-- The entries in their order. -/
  files : List FileOutcome
  /-- The main file, if no entry is it. -/
  missingMain : Option String

namespace Outcomes

/-- The entries whose files could be generated, with their files. -/
def generated (o : Outcomes) : List (Entry × GeneratedFile) :=
  o.files.filterMap fun f => f.result.toOption.map (f.entry, ·)

/-- The entries that failed, with their errors. -/
def failures (o : Outcomes) : List (Entry × DraftError) :=
  o.files.filterMap fun f =>
    match f.result with
    | .ok _ => none
    | .error e => some (f.entry, e)

/-- Whether an entry failed. -/
def hasFailures (o : Outcomes) : Bool :=
  !o.failures.isEmpty

end Outcomes

/-- The main file of a project, if none of the entries is it. -/
def missingMain? (p : Project) (entries : List Entry) : Option String :=
  if entries.any (·.isMain) then none else p.main

/-- **Generate the files of all entries**; none if the input root cannot be listed. -/
def generateAll? (p : Project) (fs : FileSystem) : Option Outcomes :=
  (p.discover? fs).map fun entries =>
    ⟨entries.map fun e => ⟨e, p.generateEntry fs e⟩, p.missingMain? entries⟩

/-- What is said when the input root cannot be listed. -/
def missingInput (p : Project) : String :=
  "failed to read input directory '" ++ p.inputRoot.text ++ "'"

end Project

end DelphiUnits

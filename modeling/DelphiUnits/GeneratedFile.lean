import DelphiUnits.Pascal.Draft
import DelphiUnits.Pascal.Rendering

/-!
# Generating a file

A document becomes a library or, if it is the main file of its project, a program. The main
file has to have a default export, since that is where a program starts.
-/

namespace DelphiUnits

open Pascal (CompilationUnit Draft DraftError UnitKind)
open Source (Document)

/-- Which file a document stands for. -/
structure Request where
  /-- The name of the unit. -/
  name : String
  /-- The source file, below the input root. -/
  source : Path
  /-- Whether it is the main file. -/
  isMain : Bool
  deriving DecidableEq, Repr

namespace Request

/-- The kind of unit that a file becomes. -/
def unitKind (r : Request) : UnitKind :=
  if r.isMain then .program else .library

end Request

/-- The generated text of a file. -/
structure GeneratedFile where
  /-- Whether it is a library or a program. -/
  kind : UnitKind
  /-- The name of the unit. -/
  name : String
  /-- The text. -/
  content : String
  /-- What there was to say. -/
  diagnostics : List Diagnostic
  deriving DecidableEq, Repr

/-- **Draft a unit** from a document: the draft as far as it came, and the error that
stopped it. -/
def draftUnit (settings : Settings) (request : Request) (document : Document) :
    Draft × Option DraftError :=
  let start := Draft.empty request.unitKind request.name
  if request.isMain && document.defaultExport?.isNone then
    (start, some (.missingEntryPoint request.source))
  else start.addDocument settings request.source document

/-- The file that a finished draft gives. -/
def GeneratedFile.ofDraft (settings : Settings) (d : Draft) : GeneratedFile :=
  ⟨d.unit.kind, d.unit.name, Pascal.render settings.indent d.unit,
    d.diagnostics ++ Pascal.unitDiagnostics d.unit⟩

/-- **Generate the file** of a document. -/
def generate (settings : Settings) (request : Request) (document : Document) :
    Except DraftError GeneratedFile :=
  match draftUnit settings request document with
  | (_, some e) => .error e
  | (d, none) => .ok (.ofDraft settings d)

end DelphiUnits

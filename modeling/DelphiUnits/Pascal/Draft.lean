import DelphiUnits.Diagnostic
import DelphiUnits.Pascal.CompilationUnit
import DelphiUnits.Pascal.Import
import DelphiUnits.Source.Document

/-!
# From documents to compilation units

A compilation unit is drafted from a document in three stages: imports, functions, classes.
A draft is the unit as far as it has come, together with what there was to say on the way.
Only the imports can fail, and what was drafted before a failure stays.
-/

namespace DelphiUnits.Pascal

open Source (Document Statement Expression)

/-! ### Stages -/

/-- The stages of drafting. -/
inductive Stage where
  | imports
  | functions
  | classes
  deriving DecidableEq, Repr

namespace Stage

/-- The stages in their order. -/
def all : List Stage := [.imports, .functions, .classes]

/-- The name of a stage. -/
def name : Stage → String
  | .imports => "imports"
  | .functions => "functions"
  | .classes => "classes"

/-- What a stage does. -/
def description : Stage → String
  | .imports => "Convert import declarations into the uses clause"
  | .functions => "Register functions and the default-exported program body"
  | .classes => "Register classes and synthesize constructors from field initializers"

end Stage

/-! ### Errors -/

/-- Why a document cannot be made into a compilation unit. -/
inductive DraftError where
  /-- It cannot be read. -/
  | document (error : Source.ReadError)
  /-- An imported unit has a reserved word for its name. -/
  | reservedWord (file : Path) (name : String)
  /-- The main file has no default export. -/
  | missingEntryPoint (file : Path)
  /-- An import leaves the input root. -/
  | importOutsideRoot (file : Path) (specifier : String)
  deriving DecidableEq, Repr

namespace DraftError

/-- The source file that an error is about. -/
def file? : DraftError → Option Path
  | .document _ => none
  | .reservedWord file _ => some file
  | .missingEntryPoint file => some file
  | .importOutsideRoot file _ => some file

/-- How an error is shown. -/
def problem : DraftError → Problem
  | .document error => error.problem
  | .reservedWord _ name =>
    ⟨"`" ++ name ++ "` is a reserved keyword", "ts2delphi::reserved_keyword",
      some "rename the imported file, generated unit names cannot be Pascal keywords"⟩
  | .missingEntryPoint file =>
    ⟨"the main program file '" ++ file.text ++ "' needs a default-exported function",
      "ts2delphi::missing_entry_point",
      some ("export an unnamed default function from the main file, " ++
        "its body becomes the program block")⟩
  | .importOutsideRoot file specifier =>
    ⟨"import '" ++ specifier ++ "' in '" ++ file.text ++ "' resolves outside the input directory",
      "ts2delphi::import_outside_root", none⟩

/-- The error of an import in a file. -/
def ofImport (file : Path) (specifier : String) : ImportError → DraftError
  | .outsideRoot => .importOutsideRoot file specifier
  | .reservedWord name => .reservedWord file name

end DraftError

/-! ### Drafts -/

/-- A compilation unit that is being drafted. -/
structure Draft where
  /-- The unit so far. -/
  unit : CompilationUnit
  /-- What there was to say so far. -/
  diagnostics : List Diagnostic

namespace Draft

/-- A draft of a unit with nothing in it. -/
def empty (kind : UnitKind) (name : String) : Draft :=
  ⟨.empty kind name, []⟩

/-- Say something. -/
def report (d : Draft) (diagnostic : Diagnostic) : Draft :=
  { d with diagnostics := d.diagnostics ++ [diagnostic] }

/-- Say several things. -/
def reportAll (d : Draft) (diagnostics : List Diagnostic) : Draft :=
  { d with diagnostics := d.diagnostics ++ diagnostics }

/-- Whether there was something to warn of. -/
def hasWarnings (d : Draft) : Bool :=
  d.diagnostics.any (·.isWarning)

/-- Change the unit. -/
def mapUnit (d : Draft) (f : CompilationUnit → CompilationUnit) : Draft :=
  { d with unit := f d.unit }

/-! ### Imports -/

/-- The warning about an import that names no unit. -/
def namelessImport (specifier : String) : Diagnostic :=
  .warning Stage.imports.name ("import '" ++ specifier ++ "' names no unit and was skipped")

/-- Add what an import names. -/
def addImported (d : Draft) (specifier : String) : Imported → Draft
  | .system name => d.mapUnit (·.addUse name none)
  | .nothing => d.report (namelessImport specifier)
  | .project name path => d.mapUnit (·.addUse name (some path))

/-- **Add imports** up to the first one that is refused. -/
def addImports (settings : Settings) (file : Path) (d : Draft) :
    List Source.Import → Draft × Option DraftError
  | [] => (d, none)
  | i :: rest =>
    match classifyImport settings i.specifier with
    | .ok imported => addImports settings file (d.addImported i.specifier imported) rest
    | .error e => (d, some (.ofImport file i.specifier e))

/-! ### Functions -/

/-- What there is to say about a function in a unit or program. -/
def functionDiagnostic? (isProgram : Bool) (f : Source.Function) : Option Diagnostic :=
  match f.name with
  | none =>
    if f.defaultExport then
      if isProgram then none
      else
        some (.info Stage.functions.name
          "default-exported function ignored outside the main file")
    else some (.info Stage.functions.name "skipped an unnamed function")
  | some name =>
    if f.defaultExport && isProgram then
      some (.warning Stage.functions.name
        ("default export '" ++ name ++ "' is named, the program block stays empty"))
    else none

/-- The unit with a function: its body as the main block if it is an entry point, a routine
if it has a name, and a declaration as well if it is exported. -/
def withFunction (u : CompilationUnit) (f : Source.Function) : CompilationUnit :=
  match f.name with
  | none => if f.defaultExport then u.setBody f.body else u
  | some name =>
    (if f.exported then u.declare (.function name) else u).addRoutine
      (.ofSource ⟨.function, name⟩ f.parameters f.returnType f.body)

/-- Add a function. -/
def addFunction (d : Draft) (f : Source.Function) : Draft :=
  ⟨withFunction d.unit f, d.diagnostics ++ (functionDiagnostic? d.unit.isProgram f).toList⟩

/-- **Add functions.** -/
def addFunctions (d : Draft) (functions : List Source.Function) : Draft :=
  functions.foldl addFunction d

/-! ### Classes -/

/-- The assignment that initializes a field. -/
def initialization (name initializer : String) : Statement :=
  .evaluate (.assign (.thisMember name) (.raw (Text.trim initializer) none))

/-- The unit with the initialization of a property, if there is one, in the constructor of
the class with the given name. -/
def withInitializer (className : String) (u : CompilationUnit) (p : Source.Property) :
    CompilationUnit :=
  match p.initializer with
  | none => u
  | some initializer =>
    (u.addRoutine (.ofSource ⟨.constructor, className⟩ [] none [])).pushStatement
      ⟨.constructor, className⟩ (initialization p.name initializer)

/-- The unit with a class: its initialized properties in a constructor, and its
declaration. -/
def withClass (u : CompilationUnit) (c : Source.Class) : CompilationUnit :=
  (c.properties.foldl (withInitializer c.name) u).declare
    (.ofClass c.name c.parent (Declaration.membersOf c.properties))

/-- **Add classes.** -/
def addClasses (d : Draft) (classes : List Source.Class) : Draft :=
  d.mapUnit fun u => classes.foldl withClass u

/-! ### Documents -/

/-- Add the declarations of one stage. -/
def addStage (settings : Settings) (file : Path) (document : Document) (d : Draft) :
    Stage → Draft × Option DraftError
  | .imports => d.addImports settings file document.imports
  | .functions => (d.addFunctions document.functions, none)
  | .classes => (d.addClasses document.classes, none)

/-- **Add a document**, stage by stage. -/
def addDocument (settings : Settings) (file : Path) (document : Document) (d : Draft) :
    Draft × Option DraftError :=
  match d.addImports settings file document.imports with
  | (d, some e) => (d, some e)
  | (d, none) => ((d.addFunctions document.functions).addClasses document.classes, none)

end Draft

end DelphiUnits.Pascal

import DelphiUnits.Json.Parser
import DelphiUnits.Json.Printer
import DelphiUnits.Problem
import DelphiUnits.Source.Declaration

/-!
# Source documents

A document holds the declarations of one source file. It is stored as a JSON text in a file
whose name ends in `.ast.json`.

Within a document at most `Json.maxDepth` arrays and objects may be open at once, except
under members that no record has a field for.
-/

namespace DelphiUnits.Source

/-- The declarations of a source file. -/
structure Document where
  /-- The imports. -/
  imports : List Import
  /-- The functions. -/
  functions : List Function
  /-- The classes. -/
  classes : List Class

namespace Document

/-- How the names of files that hold a document end. -/
def extension : String := ".ast.json"

/-- The first function that is the default export. -/
def defaultExport? (d : Document) : Option Function :=
  d.functions.find? (·.defaultExport)

/-- Read a document. -/
def read : Json.Reader Document :=
  Json.recordOf ["imports", "functions", "classes"] fun depth field => do
    let imports ← Json.withDefault [] (Json.listOf Import.read depth) (field "imports")
    let functions ← Json.withDefault [] (Json.listOf Function.read depth) (field "functions")
    let classes ← Json.withDefault [] (Json.listOf Class.read depth) (field "classes")
    some ⟨imports, functions, classes⟩

/-- Write a document. -/
def toJson (d : Document) : Json :=
  .record [("imports", .array (d.imports.map Import.toJson)),
    ("functions", .array (d.functions.map Function.toJson)),
    ("classes", .array (d.classes.map Class.toJson))]

end Document

/-- **Read a node** from its text. -/
def parseNode? {α : Type} (read : Json.Reader α) (s : String) : Option α :=
  (Json.parse? s).bind (read Json.maxDepth)

/-- What can be wrong with a document. -/
inductive ReadError where
  /-- The file cannot be read as a text. -/
  | unreadable (path : String)
  /-- The text is no document. -/
  | malformed
  deriving DecidableEq, Repr

namespace ReadError

/-- How the error is shown. -/
def problem : ReadError → Problem
  | .unreadable path =>
    ⟨"failed to read AST document '" ++ path ++ "'", "ts2delphi::ast_io", none⟩
  | .malformed =>
    ⟨"failed to parse AST document", "ts2delphi::ast_parse",
      some "AST documents are produced by the front-end; regenerate them for this source file"⟩

end ReadError

namespace Document

/-- **Read a document** from its text. -/
def parse (s : String) : Except ReadError Document :=
  match parseNode? read s with
  | some d => .ok d
  | none => .error .malformed

/-- The text of a document. -/
def render (d : Document) : String :=
  d.toJson.render

/-- Whether the text of a document reads back as a document with the same text. -/
def readsBack (d : Document) : Bool :=
  match parse d.render with
  | .ok d' => d'.render == d.render
  | .error _ => false

end Document

end DelphiUnits.Source

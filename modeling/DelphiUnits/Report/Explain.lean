import DelphiUnits.Json.Printer
import DelphiUnits.Project
import DelphiUnits.Report.Event

/-!
# Explaining an entry

An explanation shows how one document becomes a compilation unit, without rendering it: the
files involved, the stages of drafting, and the unit that comes out.
-/

namespace DelphiUnits.Explain

open DelphiUnits.Report (Event)
open Pascal (CompilationUnit Draft Stage DraftError)

/-- An explanation of an entry. -/
structure Report where
  /-- The entry. -/
  entry : Entry
  /-- The unit and what there was to say while it was drafted. -/
  draft : Draft

/-- **Explain an entry.** -/
def run (p : Project) (fs : FileSystem) (e : Entry) : Except DraftError Report :=
  match Project.readDocument fs e with
  | .error error => .error error
  | .ok document =>
    match draftUnit p.settings e.request document with
    | (_, some error) => .error error
    | (draft, none) => .ok ⟨e, draft⟩

/-! ### The unit in short -/

/-- The used units as they are written. -/
def usedUnits (u : CompilationUnit) : List String :=
  u.usedUnits.map (·.display)

/-- The declarations by their keys. -/
def types (u : CompilationUnit) : List String :=
  u.types.map fun d => d.key.display ++ " = " ++ d.shape.keyword

/-- The routines by their keys. -/
def routines (u : CompilationUnit) : List String :=
  u.routines.map (·.key.display)

/-- The number of statements in the main block. -/
def bodySize (u : CompilationUnit) : Option Nat :=
  u.body.map List.length

/-! ### Writing an explanation -/

/-- A list of texts. -/
def textsToJson (texts : List String) : Json :=
  .array (texts.map .text)

/-- A stage. -/
def stageToJson (s : Stage) : Json :=
  .record [("name", .text s.name), ("description", .text s.description)]

/-- The unit in short. -/
def summaryToJson (u : CompilationUnit) : Json :=
  .record [("kind", .text u.kind.keyword), ("name", .text u.name),
    ("used_units", textsToJson (usedUnits u)), ("types", textsToJson (types u)),
    ("implementations", textsToJson (routines u)),
    ("body_statements", ((bodySize u).map .natural).getD .null)]

/-- **Write an explanation.** The unit itself has its keys in order. -/
def Report.toJson (r : Report) : Json :=
  .record [("ast_path", .text r.entry.document.text), ("source", .text r.entry.source.text),
    ("output", .text r.entry.output.text), ("is_main", .bool r.entry.isMain),
    ("stages", .array (Stage.all.map stageToJson)), ("unit", summaryToJson r.draft.unit),
    ("diagnostics", .array (r.draft.diagnostics.map Diagnostic.toJson)),
    ("model", r.draft.unit.toJson.sortKeys)]

/-! ### Showing an explanation -/

/-- How a list is shown, unless it is empty. -/
def listEvents (name : String) (items : List String) : List Event :=
  if items.isEmpty then []
  else
    [.newline, .heading (name ++ " (" ++ toString items.length ++ ")")] ++
      items.map .listItem

/-- How the stages are shown. -/
def stageEvents : List Event :=
  Stage.all.mapIdx fun i s => .numberedItem (i + 1) (s.name ++ " - " ++ s.description)

/-- How the main block is shown. -/
def bodyEvents (u : CompilationUnit) : List Event :=
  match bodySize u with
  | some n => [.newline, .keyValue "Program block" (toString n ++ " statements")]
  | none => []

/-- How diagnostics are shown. -/
def diagnosticEvents (diagnostics : List Diagnostic) : List Event :=
  if diagnostics.isEmpty then []
  else [.newline, .heading "Diagnostics"] ++ diagnostics.map (.listItem ·.display)

/-- **How an explanation is shown.** -/
def Report.events (r : Report) : List Event :=
  [.title "ts2delphi Translation Explanation", .newline,
    .keyValue "Input" r.entry.document.text, .keyValue "Source" r.entry.source.text,
    .keyValue "Output" r.entry.output.text,
    .keyValue "Main file" (if r.entry.isMain then "yes" else "no"), .newline,
    .heading "Lexer Stages"] ++ stageEvents ++
    [.newline, .keyValue "Unit" (r.draft.unit.kind.keyword ++ " " ++ r.draft.unit.name)] ++
    listEvents "Used Units" (usedUnits r.draft.unit) ++
    listEvents "Types" (types r.draft.unit) ++
    listEvents "Implementations" (routines r.draft.unit) ++
    bodyEvents r.draft.unit ++ diagnosticEvents r.draft.diagnostics

end DelphiUnits.Explain

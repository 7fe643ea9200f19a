import DelphiUnits.Pascal.Declaration
import DelphiUnits.Pascal.Routine

/-!
# Compilation units

A compilation unit is what one generated file holds: the units it uses, the declarations of
its interface, its routines and, for a program, the statements of the main block. Units,
declarations and routines are kept in the order in which they were added, **each once**:
adding one that is there already changes nothing.
-/

namespace DelphiUnits.Pascal

open Source (Statement)

/-- Whether a compilation unit is a library or a program. -/
inductive UnitKind where
  | library
  | program
  deriving DecidableEq, Repr

namespace UnitKind

/-- The Pascal word for a kind. -/
def keyword : UnitKind → String
  | .library => "unit"
  | .program => "program"

end UnitKind

/-- An item of the `uses` clause. -/
structure UsedUnit where
  /-- The name in normal form. -/
  name : String
  /-- The generated file, for a unit of the project. -/
  path : Option String
  deriving DecidableEq, Repr

namespace UsedUnit

/-- A used unit as it is written. -/
def display (u : UsedUnit) : String :=
  match u.path with
  | some path => u.name ++ " in '" ++ path ++ "'"
  | none => u.name

end UsedUnit

/-- A compilation unit. -/
structure CompilationUnit where
  /-- Whether it is a library or a program. -/
  kind : UnitKind
  /-- The name. -/
  name : String
  /-- The units it uses. -/
  usedUnits : List UsedUnit
  /-- The declarations of the interface. -/
  types : List Declaration
  /-- The routines. -/
  routines : List Routine
  /-- The statements of the main block. -/
  body : Option (List Statement)

namespace CompilationUnit

/-- A compilation unit with nothing in it. -/
def empty (kind : UnitKind) (name : String) : CompilationUnit :=
  ⟨kind, name, [], [], [], none⟩

/-- Whether a compilation unit is a program. -/
def isProgram (u : CompilationUnit) : Bool :=
  u.kind == .program

/-- Set the statements of the main block. -/
def setBody (u : CompilationUnit) (body : List Statement) : CompilationUnit :=
  { u with body := some body }

/-- **Use a unit**, under its name in normal form. -/
def addUse (u : CompilationUnit) (name : String) (path : Option String) : CompilationUnit :=
  let used : UsedUnit := ⟨Text.normalizeIdentifier name, path⟩
  if used ∈ u.usedUnits then u else { u with usedUnits := u.usedUnits ++ [used] }

/-- Whether there is a declaration under a key. -/
def hasType (u : CompilationUnit) (key : Declaration.Key) : Bool :=
  u.types.any (·.key == key)

/-- Whether a declaration is new, which is the answer to declaring it: nothing is declared under
its key yet. -/
def isNew (u : CompilationUnit) (d : Declaration) : Bool :=
  !u.hasType d.normalize.key

/-- **Declare**, under a name in normal form. -/
def declare (u : CompilationUnit) (d : Declaration) : CompilationUnit :=
  if u.hasType d.normalize.key then u else { u with types := u.types ++ [d.normalize] }

/-- The routine under a key. -/
def routine? (u : CompilationUnit) (key : Routine.Key) : Option Routine :=
  u.routines.find? (·.key == key)

/-- **Add a routine.** -/
def addRoutine (u : CompilationUnit) (r : Routine) : CompilationUnit :=
  if (u.routine? r.key).isSome then u else { u with routines := u.routines ++ [r] }

/-- Add a statement at the end of the routine under a key. -/
def pushStatement (u : CompilationUnit) (key : Routine.Key) (s : Statement) : CompilationUnit :=
  { u with routines := u.routines.map fun r => if r.key = key then r.push s else r }

/-- Write a compilation unit. -/
def toJson (u : CompilationUnit) : Json :=
  .record [("kind", .text u.kind.keyword), ("name", .text u.name),
    ("used_units", .array (u.usedUnits.map fun used => .text used.display)),
    ("types", .array (u.types.map Declaration.toJson)),
    ("implementations", .array (u.routines.map Routine.toJson)),
    ("body", match u.body with
      | some body => .array (body.map Statement.toJson)
      | none => .null)]

end CompilationUnit

end DelphiUnits.Pascal

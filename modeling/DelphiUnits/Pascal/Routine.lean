import DelphiUnits.OrderedMap
import DelphiUnits.Source.Declaration
import DelphiUnits.TypeName

/-!
# Routines

The `implementation` section of a unit lists routines: functions, procedures and
constructors. A routine is known by its kind and its name.
-/

namespace DelphiUnits.Pascal

open Source (Statement)

/-- The kinds of routines. -/
inductive RoutineKind where
  | function
  | procedure
  | constructor
  deriving DecidableEq, Repr

namespace RoutineKind

/-- The Pascal word for a kind. -/
def keyword : RoutineKind → String
  | .function => "function"
  | .procedure => "procedure"
  | .constructor => "constructor"

end RoutineKind

/-- A routine. -/
structure Routine where
  /-- The kind. -/
  kind : RoutineKind
  /-- The name. -/
  name : String
  /-- The parameters with their Pascal types. -/
  parameters : OrderedMap String (Option String)
  /-- The Pascal type of the result. -/
  returnType : Option String
  /-- The statements. -/
  body : List Statement

namespace Routine

/-- What routines are told apart by. -/
structure Key where
  /-- The kind. -/
  kind : RoutineKind
  /-- The name. -/
  name : String
  deriving DecidableEq, Repr

/-- A key as it is shown. -/
def Key.display (k : Key) : String :=
  k.kind.keyword ++ " " ++ k.name

/-- **The key of a routine.** -/
def key (r : Routine) : Key :=
  ⟨r.kind, r.name⟩

/-- Parameters with their types in Pascal. -/
def mapParameters (parameters : List Source.Parameter) : OrderedMap String (Option String) :=
  OrderedMap.insertMany [] (parameters.map fun p => (p.name, p.type.map mapTypeName))

/-- A routine under a key, with types as they are written in the source. -/
def ofSource (key : Key) (parameters : List Source.Parameter) (returnType : Option String)
    (body : List Statement) : Routine :=
  ⟨key.kind, key.name, mapParameters parameters, returnType.map mapTypeName, body⟩

/-- A routine with a statement added at the end of its body. -/
def push (r : Routine) (s : Statement) : Routine :=
  { r with body := r.body ++ [s] }

/-- Write a routine. -/
def toJson (r : Routine) : Json :=
  .record [("kind", .text r.kind.keyword), ("name", .text r.name),
    ("parameters", .record (r.parameters.map fun (name, type) => (name, .optionalText type))),
    ("return_type", .optionalText r.returnType),
    ("body", .array (r.body.map Statement.toJson))]

end Routine

/-- The variables that the outermost statements declare. Of a name that is declared again
**the first declaration counts**. -/
def localVariables (statements : List Statement) : OrderedMap String (Option String) :=
  (statements.flatMap declared).foldl (fun m v => m.insertNew v.name v.type) []
where
  /-- The variables that a statement declares itself. -/
  declared : Statement → List Source.Variable
    | .declare declarations => declarations
    | _ => []

end DelphiUnits.Pascal

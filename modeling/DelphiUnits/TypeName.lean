/-!
# Type names

The primitive types of the source language have Pascal counterparts; every other type name
is kept as it is written.
-/

namespace DelphiUnits

/-- The Pascal types that stand for a primitive type of the source language. -/
inductive PrimitiveType where
  | string
  | float
  | integer
  | boolean
  deriving DecidableEq, Repr

namespace PrimitiveType

/-- The primitive type with a source name. Names are told apart by letter case. -/
def ofSourceName? : String → Option PrimitiveType
  | "string" => some .string
  | "number" => some .float
  | "int" => some .integer
  | "boolean" => some .boolean
  | "bool" => some .boolean
  | _ => none

/-- The Pascal name of a primitive type. -/
def pascalName : PrimitiveType → String
  | .string => "String"
  | .float => "Float"
  | .integer => "Integer"
  | .boolean => "Boolean"

end PrimitiveType

/-- The **Pascal name of a source type**: the counterpart of a primitive type, else the name
itself. -/
def mapTypeName (name : String) : String :=
  match PrimitiveType.ofSourceName? name with
  | some primitive => primitive.pascalName
  | none => name

end DelphiUnits

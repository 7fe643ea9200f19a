import DelphiUnits.Source.Statement

/-!
# Declarations

What a source file declares at its outermost level: imports, functions and classes. All of
them are plain records.
-/

namespace DelphiUnits.Source

/-! ### Imports -/

/-- An import of another module. -/
structure Import where
  /-- The name of the module as it is written, without quotes. -/
  specifier : String
  deriving DecidableEq, Repr

namespace Import

/-- Read an import. -/
def read : Json.Reader Import :=
  Json.recordOf ["specifier"] fun _ field => do
    let specifier ← Json.required Json.text? (field "specifier")
    some ⟨specifier⟩

/-- Write an import. -/
def toJson (i : Import) : Json :=
  .record [("specifier", .text i.specifier)]

end Import

/-! ### Functions -/

/-- A parameter of a function. -/
structure Parameter where
  /-- The name. -/
  name : String
  /-- The type as it is written. -/
  type : Option String
  deriving DecidableEq, Repr

namespace Parameter

/-- Read a parameter. -/
def read : Json.Reader Parameter :=
  Json.recordOf ["name", "type"] fun _ field => do
    let name ← Json.required Json.text? (field "name")
    let type ← Json.optional Json.text? (field "type")
    some ⟨name, type⟩

/-- Write a parameter. -/
def toJson (p : Parameter) : Json :=
  .record [("name", .text p.name), ("type", .optionalText p.type)]

end Parameter

/-- A function. -/
structure Function where
  /-- The name, which a default export may lack. -/
  name : Option String
  /-- Whether the function is exported. -/
  exported : Bool
  /-- Whether the function is the default export of its file. -/
  defaultExport : Bool
  /-- The parameters. -/
  parameters : List Parameter
  /-- The type of the result as it is written. -/
  returnType : Option String
  /-- The statements. -/
  body : List Statement

namespace Function

/-- Whether a function is an **entry point**: a default export without a name. -/
def isEntryPoint (f : Function) : Bool :=
  f.name.isNone && f.defaultExport

/-- Read a function. -/
def read : Json.Reader Function :=
  Json.recordOf ["name", "exported", "defaultExport", "parameters", "returnType", "body"]
    fun depth field => do
      let name ← Json.optional Json.text? (field "name")
      let exported ← Json.withDefault false Json.bool? (field "exported")
      let defaultExport ← Json.withDefault false Json.bool? (field "defaultExport")
      let parameters ← Json.withDefault [] (Json.listOf Parameter.read depth) (field "parameters")
      let returnType ← Json.optional Json.text? (field "returnType")
      let body ← Json.withDefault [] (Json.listOf Statement.read depth) (field "body")
      some ⟨name, exported, defaultExport, parameters, returnType, body⟩

/-- Write a function. -/
def toJson (f : Function) : Json :=
  .record [("name", .optionalText f.name), ("exported", .bool f.exported),
    ("defaultExport", .bool f.defaultExport),
    ("parameters", .array (f.parameters.map Parameter.toJson)),
    ("returnType", .optionalText f.returnType),
    ("body", .array (f.body.map Statement.toJson))]

end Function

/-! ### Classes -/

/-- The visibility of a member of a class. -/
inductive Visibility where
  | everywhere
  | inClass
  | inFamily
  deriving DecidableEq, Repr

namespace Visibility

/-- The word for a visibility. -/
def keyword : Visibility → String
  | .everywhere => "public"
  | .inClass => "private"
  | .inFamily => "protected"

/-- The visibility a word stands for. -/
def ofKeyword? : String → Option Visibility
  | "public" => some .everywhere
  | "private" => some .inClass
  | "protected" => some .inFamily
  | _ => none

/-- Read a visibility: its word, or an object with that word as its only key and nothing
under it. -/
def read : Json.Reader Visibility
  | _, .string s => s.bind ofKeyword?
  | _ + 1, .object [(key, .null)] => key.bind ofKeyword?
  | _, _ => none

/-- Write a visibility. -/
def toJson (v : Visibility) : Json :=
  .text v.keyword

end Visibility

/-- A property of a class. -/
structure Property where
  /-- The name. -/
  name : String
  /-- The type as it is written. -/
  type : Option String
  /-- The text of the initial value. -/
  initializer : Option String
  /-- The visibility, if one is written. -/
  visibility : Option Visibility
  /-- Whether the property belongs to the class itself. -/
  isStatic : Bool
  deriving DecidableEq, Repr

namespace Property

/-- Read a property. -/
def read : Json.Reader Property :=
  Json.recordOf ["name", "type", "initializer", "visibility", "static"] fun depth field => do
    let name ← Json.required Json.text? (field "name")
    let type ← Json.optional Json.text? (field "type")
    let initializer ← Json.optional Json.text? (field "initializer")
    let visibility ← Json.optional (Visibility.read depth) (field "visibility")
    let isStatic ← Json.withDefault false Json.bool? (field "static")
    some ⟨name, type, initializer, visibility, isStatic⟩

/-- Write a property. -/
def toJson (p : Property) : Json :=
  .record [("name", .text p.name), ("type", .optionalText p.type),
    ("initializer", .optionalText p.initializer),
    ("visibility", (p.visibility.map Visibility.toJson).getD .null),
    ("static", .bool p.isStatic)]

end Property

/-- A class. -/
structure Class where
  /-- The name. -/
  name : String
  /-- The text of the class it extends. -/
  parent : Option String
  /-- The properties. -/
  properties : List Property
  deriving DecidableEq, Repr

namespace Class

/-- Read a class. -/
def read : Json.Reader Class :=
  Json.recordOf ["name", "extends", "properties"] fun depth field => do
    let name ← Json.required Json.text? (field "name")
    let parent ← Json.optional Json.text? (field "extends")
    let properties ← Json.withDefault [] (Json.listOf Property.read depth) (field "properties")
    some ⟨name, parent, properties⟩

/-- Write a class. -/
def toJson (c : Class) : Json :=
  .record [("name", .text c.name), ("extends", .optionalText c.parent),
    ("properties", .array (c.properties.map Property.toJson))]

end Class

end DelphiUnits.Source

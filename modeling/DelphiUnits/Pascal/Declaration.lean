import DelphiUnits.OrderedMap
import DelphiUnits.Source.Declaration
import DelphiUnits.Text.Identifier

/-!
# Declarations in the interface

The `type` section of a unit lists declarations: functions, variables, constants, records
and classes. Records and classes have members, which are declarations again. A declaration
is known by its **key**: its name, and for a class the class it extends as well.
-/

namespace DelphiUnits.Pascal

open Source (Visibility)

mutual

/-- A declaration. -/
structure Declaration where
  /-- The name. -/
  name : String
  /-- The visibility, if there is one. -/
  visibility : Option Visibility
  /-- What is declared. -/
  shape : Shape

/-- What a declaration declares. -/
inductive Shape where
  /-- A record with its members. -/
  | record (members : List Declaration)
  /-- A variable of a type. -/
  | var (type : Option String)
  /-- A constant of a type. -/
  | const (type : Option String)
  /-- A function. -/
  | function
  /-- A class with the text of its parent and its members by name. -/
  | classType (parent : Option String) (members : List (String × Member))

/-- A member of a class. -/
structure Member where
  /-- The declaration of the member. -/
  entry : Declaration
  /-- Whether the member belongs to the class itself. -/
  isStatic : Bool

end

namespace Shape

/-- The Pascal word for what is declared. -/
def keyword : Shape → String
  | .record _ => "record"
  | .var _ => "var"
  | .const _ => "const"
  | .function => "function"
  | .classType .. => "class"

/-- The class that a class extends. -/
def parent? : Shape → Option String
  | .classType parent _ => parent
  | _ => none

/-- The declarations inside. Functions, variables and constants can have none. -/
def members? : Shape → Option (List Declaration)
  | .record members => some members
  | .classType _ members => some (members.map fun (_, m) => m.entry)
  | _ => none

end Shape

namespace Declaration

/-- What declarations are told apart by. -/
structure Key where
  /-- The name. -/
  name : String
  /-- The class that a class extends. -/
  parent : Option String
  deriving DecidableEq, Repr

/-- A key as it is shown. -/
def Key.display (k : Key) : String :=
  match k.parent with
  | some parent => k.name ++ " extends " ++ parent
  | none => k.name

/-- **The key of a declaration.** -/
def key (d : Declaration) : Key :=
  ⟨d.name, d.shape.parent?⟩

/-- A declaration with its name in normal form. -/
def normalize (d : Declaration) : Declaration :=
  { d with name := Text.normalizeIdentifier d.name }

/-- The declaration of a function. -/
def function (name : String) : Declaration :=
  ⟨name, none, .function⟩

/-- The declaration of a class. -/
def ofClass (name : String) (parent : Option String) (members : OrderedMap String Member) :
    Declaration :=
  ⟨name, none, .classType parent members⟩

/-- The member that a property of a class becomes. -/
def memberOf (p : Source.Property) : Member :=
  ⟨⟨p.name, p.visibility, .var p.type⟩, p.isStatic⟩

/-- The members that properties become. A property that is declared again takes the place of
the first one. -/
def membersOf (properties : List Source.Property) : OrderedMap String Member :=
  OrderedMap.insertMany [] (properties.map fun p => (p.name, memberOf p))

/-! ### Writing -/

/-- The field of a visibility. -/
def visibilityField (v : Option Visibility) : String × Json :=
  ("visibility", (v.map Visibility.toJson).getD .null)

mutual

/-- The fields of a declaration. -/
def fields : Declaration → List (String × Json)
  | ⟨name, visibility, shape⟩ =>
    ("name", .text name) :: visibilityField visibility :: shapeFields shape

/-- The fields of what is declared. -/
def shapeFields : Shape → List (String × Json)
  | .record members => [("kind", .text "struct"), ("members", .array (itemsToJson members))]
  | .var type => [("kind", .text "var"), ("type", .optionalText type)]
  | .const type => [("kind", .text "const"), ("type", .optionalText type)]
  | .function => [("kind", .text "function")]
  | .classType parent members =>
    [("kind", .text "class"), ("parent", .optionalText parent),
      ("members", .record (membersToJson members))]

/-- Write declarations. -/
def itemsToJson : List Declaration → List Json
  | [] => []
  | d :: ds => .record (fields d) :: itemsToJson ds

/-- Write the members of a class. -/
def membersToJson : List (String × Member) → List (String × Json)
  | [] => []
  | (name, ⟨entry, isStatic⟩) :: rest =>
    (name, .record (fields entry ++ [("is_static", .bool isStatic)])) :: membersToJson rest

end

/-- **Write a declaration.** -/
def toJson (d : Declaration) : Json :=
  .record (fields d)

end Declaration

end DelphiUnits.Pascal

import DelphiUnits.Source.Expression

/-!
# Statements

Statements keep the lists of statements inside them, although code generation looks at the
outermost ones only. A statement of an unknown kind is read as unsupported, without its
contents.

A statement is a record with a tag. In an object the tag is the member `kind`, which stands
exactly once; in an array it is the first item. The tag is the name of the kind; inside
another statement the position of the kind serves as well.
-/

namespace DelphiUnits.Source

/-- A declared variable. -/
structure Variable where
  /-- The name. -/
  name : String
  /-- The type as it is written. -/
  type : Option String
  /-- The initial value. -/
  initializer : Option Expression

namespace Variable

/-- The fields of a variable. -/
def fieldNames : List String := ["name", "type", "initializer"]

/-- Read a variable, its initial value by the given reader. -/
def ofFields (expression : Json → Option Expression) (field : String → Option Json) :
    Option Variable := do
  let name ← Json.required Json.text? (field "name")
  let type ← Json.optional Json.text? (field "type")
  let initializer ← Json.optional expression (field "initializer")
  some ⟨name, type, initializer⟩

/-- Read a variable. -/
def ofJson (j : Json) : Option Variable :=
  (j.record? fieldNames).bind (ofFields Expression.ofJson)

/-- Read a variable that may be nested to a depth. -/
def read : Json.Reader Variable :=
  Json.recordOf fieldNames fun depth => ofFields (Expression.read depth)

/-- Write a variable. -/
def toJson (v : Variable) : Json :=
  .record [("name", .text v.name), ("type", .optionalText v.type),
    ("initializer", (v.initializer.map Expression.toJson).getD .null)]

end Variable

/-- A statement. -/
inductive Statement where
  /-- Declarations of variables. -/
  | declare (declarations : List Variable)
  /-- An expression that is evaluated for its effect. -/
  | evaluate (expression : Expression)
  /-- A choice between two lists of statements. -/
  | conditional (condition : Expression) (thenBody : List Statement)
      (elseBody : Option (List Statement))
  /-- A loop with a condition. -/
  | whileLoop (condition : Expression) (body : List Statement)
  /-- A loop with a counter. -/
  | forLoop (initializer condition incrementor : Option Expression) (body : List Statement)
  /-- The end of a function, with its result. -/
  | returning (expression : Option Expression)
  /-- A list of statements taken as one. -/
  | block (statements : List Statement)
  /-- A statement of any other kind. -/
  | unsupported

namespace Statement

/-- The kinds of statements. -/
inductive Kind where
  | declare
  | evaluate
  | conditional
  | whileLoop
  | forLoop
  | returning
  | block
  | unsupported
  deriving DecidableEq, Repr

namespace Kind

/-- The name of a kind, which is its tag. -/
def name : Kind → String
  | .declare => "VariableStatement"
  | .evaluate => "ExpressionStatement"
  | .conditional => "IfStatement"
  | .whileLoop => "WhileStatement"
  | .forLoop => "ForStatement"
  | .returning => "ReturnStatement"
  | .block => "Block"
  | .unsupported => "Unsupported"

/-- The kind with a name. -/
def ofName : String → Kind
  | "VariableStatement" => .declare
  | "ExpressionStatement" => .evaluate
  | "IfStatement" => .conditional
  | "WhileStatement" => .whileLoop
  | "ForStatement" => .forLoop
  | "ReturnStatement" => .returning
  | "Block" => .block
  | _ => .unsupported

/-- The kind at a position. -/
def ofPosition : Nat → Kind
  | 0 => .declare
  | 1 => .evaluate
  | 2 => .conditional
  | 3 => .whileLoop
  | 4 => .forLoop
  | 5 => .returning
  | 6 => .block
  | _ => .unsupported

/-- The kind a tag stands for. Positions count inside another statement only. -/
def ofTag? (inner : Bool) : Json → Option Kind
  | .string (some s) => some (ofName s)
  | .number n => if inner then n.toWord?.map ofPosition else none
  | _ => none

/-- The fields of a statement of a kind. -/
def fieldNames : Kind → List String
  | .declare => ["declarations"]
  | .evaluate => ["expression"]
  | .conditional => ["condition", "thenStatement", "elseStatement"]
  | .whileLoop => ["condition", "body"]
  | .forLoop => ["initializer", "condition", "incrementor", "body"]
  | .returning => ["expression"]
  | .block => ["statements"]
  | .unsupported => []

end Kind

/-- The kind of a statement. -/
def kind : Statement → Kind
  | .declare _ => .declare
  | .evaluate _ => .evaluate
  | .conditional .. => .conditional
  | .whileLoop .. => .whileLoop
  | .forLoop .. => .forLoop
  | .returning _ => .returning
  | .block _ => .block
  | .unsupported => .unsupported

/-! ### Reading -/

/-- The tag and the fields of a tagged record. -/
def tagged? : Json → Option (Json × Json.Fields)
  | .object members =>
    match members.filter (·.1 == some "kind") with
    | [(_, tag)] => some (tag, .named (members.filter (·.1 != some "kind")))
    | _ => none
  | .array (tag :: items) => some (tag, .positional items)
  | _ => none

theorem sizeOf_filter_le (p : Json.Member → Bool) (xs : List Json.Member) :
    sizeOf (xs.filter p) ≤ sizeOf xs := by
  induction xs with
  | nil => simp
  | cons x xs ih =>
      by_cases h : p x
      · simp only [List.filter_cons_of_pos h, List.cons.sizeOf_spec]
        omega
      · simp only [List.filter_cons_of_neg h, List.cons.sizeOf_spec]
        omega

theorem sizeOf_fields_le {j tag : Json} {fields : Json.Fields}
    (h : tagged? j = some (tag, fields)) : sizeOf fields ≤ sizeOf j := by
  unfold tagged? at h
  split at h
  · next members =>
    split at h
    · cases h
      have := sizeOf_filter_le (·.1 != some "kind") members
      simp only [Json.Fields.named.sizeOf_spec, Json.object.sizeOf_spec]
      omega
    · cases h
  · cases h
    simp only [Json.Fields.positional.sizeOf_spec, Json.array.sizeOf_spec, List.cons.sizeOf_spec]
    omega
  · cases h

/-- A field of a tagged record is smaller than the record. -/
theorem sizeOf_field_lt {j tag v : Json} {fields : Json.Fields} {names : List String}
    {name : String} (h : tagged? j = some (tag, fields))
    (hv : fields.get? names name = some v) : sizeOf v < sizeOf j :=
  Nat.lt_of_lt_of_le (Json.Fields.sizeOf_get?_lt hv) (sizeOf_fields_le h)

/-- Read the items of an array. -/
def itemsOf {α : Type} (read : Json → Option α) : Json → Option (List α)
  | .array items => items.mapM read
  | _ => none

mutual

/-- **Read a statement**, which may stand inside another one. -/
def ofJson (inner : Bool) (j : Json) : Option Statement :=
  match ht : tagged? j with
  | none => none
  | some (tag, fields) =>
    match Kind.ofTag? inner tag with
    | none => none
    | some kind =>
      if fields.areOf kind.fieldNames then
        match kind with
        | .declare =>
          (Json.required (itemsOf Variable.ofJson)
            (fields.get? Kind.declare.fieldNames "declarations")).map .declare
        | .evaluate =>
          (Json.required Expression.ofJson
            (fields.get? Kind.evaluate.fieldNames "expression")).map .evaluate
        | .conditional => do
          let condition ← Json.required Expression.ofJson
            (fields.get? Kind.conditional.fieldNames "condition")
          let thenBody ← match h : fields.get? Kind.conditional.fieldNames "thenStatement" with
            | some body => have := sizeOf_field_lt ht h; ofBody body
            | none => some []
          let elseBody ← match h : fields.get? Kind.conditional.fieldNames "elseStatement" with
            | some .null => some none
            | some body => have := sizeOf_field_lt ht h; (ofBody body).map some
            | none => some none
          some (.conditional condition thenBody elseBody)
        | .whileLoop => do
          let condition ← Json.required Expression.ofJson
            (fields.get? Kind.whileLoop.fieldNames "condition")
          let body ← match h : fields.get? Kind.whileLoop.fieldNames "body" with
            | some body => have := sizeOf_field_lt ht h; ofBody body
            | none => some []
          some (.whileLoop condition body)
        | .forLoop => do
          let initializer ← Json.optional Expression.ofJson
            (fields.get? Kind.forLoop.fieldNames "initializer")
          let condition ← Json.optional Expression.ofJson
            (fields.get? Kind.forLoop.fieldNames "condition")
          let incrementor ← Json.optional Expression.ofJson
            (fields.get? Kind.forLoop.fieldNames "incrementor")
          let body ← match h : fields.get? Kind.forLoop.fieldNames "body" with
            | some body => have := sizeOf_field_lt ht h; ofBody body
            | none => some []
          some (.forLoop initializer condition incrementor body)
        | .returning =>
          (Json.optional Expression.ofJson
            (fields.get? Kind.returning.fieldNames "expression")).map .returning
        | .block =>
          match h : fields.get? Kind.block.fieldNames "statements" with
          | some body => have := sizeOf_field_lt ht h; (ofBody body).map .block
          | none => none
        | .unsupported => some .unsupported
      else none
termination_by sizeOf j

/-- Read a list of statements inside a statement. -/
def ofBody (j : Json) : Option (List Statement) :=
  match j with
  | .array items => ofItems items
  | _ => none
termination_by sizeOf j

/-- Read statements inside a statement. -/
def ofItems (items : List Json) : Option (List Statement) :=
  match items with
  | [] => some []
  | item :: rest => do
    let s ← ofJson true item
    let ss ← ofItems rest
    some (s :: ss)
termination_by sizeOf items

end

/-- Read a statement that may be nested to a depth. A statement is read in full, so all of
it has to fit. -/
def read : Json.Reader Statement := fun depth j =>
  if j.fits depth then ofJson false j else none

/-! ### Writing -/

/-- The tag of a statement as a member. -/
def tagMember (kind : Kind) : String × Json :=
  ("kind", .text kind.name)

/-- Write an expression that may be absent. -/
def optionalExpression (e : Option Expression) : Json :=
  (e.map Expression.toJson).getD .null

mutual

/-- **Write a statement.** -/
def toJson : Statement → Json
  | .declare declarations =>
    .record [tagMember .declare,
      ("declarations", .array (declarations.map Variable.toJson))]
  | .evaluate expression =>
    .record [tagMember .evaluate, ("expression", expression.toJson)]
  | .conditional condition thenBody elseBody =>
    .record [tagMember .conditional, ("condition", condition.toJson),
      ("thenStatement", .array (toItems thenBody)),
      ("elseStatement", elseToJson elseBody)]
  | .whileLoop condition body =>
    .record [tagMember .whileLoop, ("condition", condition.toJson),
      ("body", .array (toItems body))]
  | .forLoop initializer condition incrementor body =>
    .record [tagMember .forLoop, ("initializer", optionalExpression initializer),
      ("condition", optionalExpression condition),
      ("incrementor", optionalExpression incrementor),
      ("body", .array (toItems body))]
  | .returning expression =>
    .record [tagMember .returning, ("expression", optionalExpression expression)]
  | .block statements =>
    .record [tagMember .block, ("statements", .array (toItems statements))]
  | .unsupported => .record [tagMember .unsupported]

/-- Write the second branch of a choice. -/
def elseToJson : Option (List Statement) → Json
  | none => .null
  | some statements => .array (toItems statements)

/-- Write statements. -/
def toItems : List Statement → List Json
  | [] => []
  | s :: ss => s.toJson :: toItems ss

end

end Statement

end DelphiUnits.Source

import DelphiUnits.Json.Record

/-!
# Expressions

An expression keeps the text it was written as, since that text is what generated code
repeats. Only the kinds that code generation looks into have a form of their own; an
expression of any other kind is **raw**: its text, and the name of its kind.

Reading an expression therefore hardly ever fails. A tree whose tag names one of the known
kinds must have the fields of that kind; every other tree, whatever it is, reads as a raw
expression.

## Main definitions

* `Expression.ofJson` and `Expression.toJson`: reading and writing;
* `Expression.text`, `Expression.syntaxKind`: what generated code and diagnostics show.
-/

namespace DelphiUnits.Source

/-- An expression. -/
inductive Expression where
  /-- Two operands and an operator, assignments included. -/
  | binary (left : Expression) (operator : String) (right : Expression) (text : String)
  /-- A member of what the receiver evaluates to. -/
  | access (receiver : Expression) (name : String) (text : String)
  /-- The current object. -/
  | this
  /-- A name. -/
  | identifier (text : String)
  /-- A call. -/
  | call (callee : Expression) (arguments : List Expression) (text : String)
  /-- A literal value. -/
  | literal (text : String)
  /-- Any other expression, with the name of its kind if it is known. -/
  | raw (text : String) (kind : Option String)

namespace Expression

/-- The kinds of expressions that have a form of their own. -/
inductive Kind where
  | binary
  | access
  | this
  | identifier
  | call
  | literal
  | raw
  deriving DecidableEq, Repr

namespace Kind

/-- The name of a kind, which is its tag. -/
def name : Kind → String
  | .binary => "BinaryExpression"
  | .access => "PropertyAccessExpression"
  | .this => "ThisExpression"
  | .identifier => "Identifier"
  | .call => "CallExpression"
  | .literal => "Literal"
  | .raw => "Raw"

/-- The kind a tag stands for. Literals have a tag for each type of value as well. -/
def ofTag? : String → Option Kind
  | "BinaryExpression" => some .binary
  | "PropertyAccessExpression" => some .access
  | "ThisExpression" => some .this
  | "Identifier" => some .identifier
  | "CallExpression" => some .call
  | "Literal" => some .literal
  | "NumericLiteral" => some .literal
  | "StringLiteral" => some .literal
  | "TrueKeyword" => some .literal
  | "FalseKeyword" => some .literal
  | "NullKeyword" => some .literal
  | "Raw" => some .raw
  | _ => none

end Kind

/-- The kind of an expression. -/
def kind : Expression → Kind
  | .binary .. => .binary
  | .access .. => .access
  | .this => .this
  | .identifier _ => .identifier
  | .call .. => .call
  | .literal _ => .literal
  | .raw .. => .raw

/-- The text an expression was written as. -/
def text : Expression → String
  | .binary _ _ _ text => text
  | .access _ _ text => text
  | .this => "this"
  | .identifier text => text
  | .call _ _ text => text
  | .literal text => text
  | .raw text _ => text

/-- The name of the kind an expression was read as. -/
def syntaxKind : Expression → String
  | .raw _ (some kind) => kind
  | e => e.kind.name

/-! ### Building expressions -/

/-- A member of the current object. -/
def thisMember (name : String) : Expression :=
  .access .this name ("this." ++ name)

/-- The assignment of one expression to another. -/
def assign (left right : Expression) : Expression :=
  .binary left "=" right (left.text ++ " = " ++ right.text)

/-! ### Reading -/

/-- The tag of a tree, empty if it has none. -/
def tagOf (j : Json) : String :=
  ((j.get? "kind").bind Json.text?).getD ""

/-- The raw expression that a tree of an unknown kind reads as. -/
def rawOf (j : Json) : Expression :=
  .raw (((j.get? "text").bind Json.text?).getD "")
    (if tagOf j = "" then none else some (tagOf j))

/-- The text field of a tree. -/
def textField (j : Json) : Option String :=
  (j.get? "text").bind Json.text?

mutual

/-- **Read an expression.** -/
def ofJson (j : Json) : Option Expression :=
  match Kind.ofTag? (tagOf j) with
  | none => some (rawOf j)
  | some .this => some .this
  | some .identifier => (textField j).map .identifier
  | some .literal => (textField j).map .literal
  | some .raw => do
    let text ← Json.withDefault "" Json.text? (j.get? "text")
    let kind ← Json.optional Json.text? (j.get? "syntaxKind")
    some (.raw text kind)
  | some .binary => do
    let left ← match h : j.get? "left" with
      | some l => have := Json.sizeOf_get?_lt h; ofJson l
      | none => none
    let operator ← (j.get? "operator").bind Json.text?
    let right ← match h : j.get? "right" with
      | some r => have := Json.sizeOf_get?_lt h; ofJson r
      | none => none
    let text ← textField j
    some (.binary left operator right text)
  | some .access => do
    let receiver ← match h : j.get? "expression" with
      | some e => have := Json.sizeOf_get?_lt h; ofJson e
      | none => none
    let name ← (j.get? "name").bind Json.text?
    let text ← textField j
    some (.access receiver name text)
  | some .call => do
    let callee ← match h : j.get? "expression" with
      | some e => have := Json.sizeOf_get?_lt h; ofJson e
      | none => none
    let arguments ← match h : j.get? "arguments" with
      | some (.array items) =>
        have := Json.sizeOf_get?_lt h
        have : sizeOf items < sizeOf (Json.array items) := by simp
        ofItems items
      | some _ => none
      | none => some []
    let text ← textField j
    some (.call callee arguments text)
termination_by sizeOf j

/-- Read expressions. -/
def ofItems (items : List Json) : Option (List Expression) :=
  match items with
  | [] => some []
  | item :: rest => do
    let e ← ofJson item
    let es ← ofItems rest
    some (e :: es)
termination_by sizeOf items

end

/-- Read an expression that may be nested to a depth. -/
def read : Json.Reader Expression := fun depth j =>
  if j.fits depth then ofJson j else none

/-! ### Writing -/

mutual

/-- **Write an expression.** -/
def toJson : Expression → Json
  | .binary left operator right text =>
    .record [("kind", .text Kind.binary.name), ("left", left.toJson),
      ("operator", .text operator), ("right", right.toJson),
      ("text", .text text)]
  | .access receiver name text =>
    .record [("kind", .text Kind.access.name), ("expression", receiver.toJson),
      ("name", .text name), ("text", .text text)]
  | .this => .record [("kind", .text Kind.this.name)]
  | .identifier text =>
    .record [("kind", .text Kind.identifier.name), ("text", .text text)]
  | .call callee arguments text =>
    .record [("kind", .text Kind.call.name), ("expression", callee.toJson),
      ("arguments", .array (toItems arguments)), ("text", .text text)]
  | .literal text =>
    .record [("kind", .text Kind.literal.name), ("text", .text text)]
  | .raw text none =>
    .record [("kind", .text Kind.raw.name), ("text", .text text)]
  | .raw text (some kind) =>
    .record [("kind", .text Kind.raw.name), ("text", .text text),
      ("syntaxKind", .text kind)]

/-- Write expressions. -/
def toItems : List Expression → List Json
  | [] => []
  | e :: es => e.toJson :: toItems es

end

end Expression

end DelphiUnits.Source

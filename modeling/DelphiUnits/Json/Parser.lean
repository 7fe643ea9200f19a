import DelphiUnits.Json.Token

/-!
# Reading JSON

The reader takes one token at a time. It holds the arrays and objects that are still open on
a stack, so the nesting of a text is not limited.
-/

namespace DelphiUnits.Json

/-- An open array or object whose next item is being read. What it holds is in reverse. -/
inductive Frame where
  | array (items : List Json)
  | object (members : List Member) (key : Literal)

/-- Where the reader stands. -/
inductive Reading where
  /-- A value has to follow. -/
  | value (stack : List Frame)
  /-- An array was opened: a value follows or its end. -/
  | arrayStart (stack : List Frame)
  /-- An object was opened: a key follows or its end. -/
  | objectStart (stack : List Frame)
  /-- A key has to follow the members, which are in reverse. -/
  | key (members : List Member) (stack : List Frame)
  /-- A colon has to follow the key. -/
  | colon (members : List Member) (key : Literal) (stack : List Frame)
  /-- A value is complete. -/
  | complete (value : Json) (stack : List Frame)

namespace Reading

/-- Take the first token of a value. -/
def startValue (stack : List Frame) : Token → Option Reading
  | .openArray => some (.arrayStart stack)
  | .openObject => some (.objectStart stack)
  | .null => some (.complete .null stack)
  | .bool b => some (.complete (.bool b) stack)
  | .number n => some (.complete (.number n) stack)
  | .string s => some (.complete (.string s) stack)
  | _ => none

/-- **Take a token.** -/
def step : Reading → Token → Option Reading
  | .value stack, t => startValue stack t
  | .arrayStart stack, .closeArray => some (.complete (.array []) stack)
  | .arrayStart stack, t => startValue (.array [] :: stack) t
  | .objectStart stack, .closeObject => some (.complete (.object []) stack)
  | .objectStart stack, .string k => some (.colon [] k stack)
  | .objectStart _, _ => none
  | .key members stack, .string k => some (.colon members k stack)
  | .key _ _, _ => none
  | .colon members k stack, .colon => some (.value (.object members k :: stack))
  | .colon _ _ _, _ => none
  | .complete v (.array items :: stack), .comma => some (.value (.array (v :: items) :: stack))
  | .complete v (.array items :: stack), .closeArray =>
    some (.complete (.array (v :: items).reverse) stack)
  | .complete v (.object members k :: stack), .comma => some (.key ((k, v) :: members) stack)
  | .complete v (.object members k :: stack), .closeObject =>
    some (.complete (.object ((k, v) :: members).reverse) stack)
  | .complete _ _, _ => none

/-- Take tokens one after the other. -/
def run : Reading → List Token → Option Reading
  | r, [] => some r
  | r, t :: ts =>
    match r.step t with
    | some r' => run r' ts
    | none => none

/-- The tree that was read, when nothing is left open. -/
def result? : Reading → Option Json
  | .complete v [] => some v
  | _ => none

end Reading

/-- The tree that tokens spell. -/
def ofTokens? (tokens : List Token) : Option Json :=
  (Reading.run (.value []) tokens).bind Reading.result?

/-- **Read a text**: the tree it stands for, none if it is no JSON text. -/
def parse? (s : String) : Option Json :=
  (scan s.toList).bind ofTokens?

end DelphiUnits.Json

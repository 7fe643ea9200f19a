import DelphiUnits.Diagnostic
import DelphiUnits.Layout
import DelphiUnits.Pascal.CompilationUnit

/-!
# Rendering compilation units

A compilation unit is rendered by a layout script. The script follows the shape of a Pascal
file: the header, the interface with its `uses` clause and its `type` section, the
implementation with its routines, and the main block of a program or the end of a library.

Of the statements in a block only assignments are rendered. What is left out or changed is
said in diagnostics, which follow the script block by block.
-/

namespace DelphiUnits.Pascal

open Layout (Command nested)
open Source (Statement Expression Visibility)

/-! ### Statements -/

/-- What becomes of a statement. -/
inductive Outcome where
  /-- It is part of the variable section. -/
  | declared
  /-- It is rendered as a line. -/
  | line (text : String)
  /-- It is left out, as one of a kind. -/
  | skipped (kind : String)
  deriving DecidableEq, Repr

/-- Whether an expression is the current object. -/
def isThis : Expression → Bool
  | .this => true
  | .identifier text => text == "this"
  | _ => false

/-- What an assignment is made to, as it is written: members of the current object go by
their name alone. -/
def target : Expression → String
  | .access receiver name text => if isThis receiver then name else text
  | e => e.text

/-- What becomes of an expression. -/
def expressionOutcome : Expression → Outcome
  | .binary left operator right _ =>
    .line (target left ++ " :" ++ operator ++ " " ++ right.text ++ ";")
  | e => .skipped e.syntaxKind

/-- **What becomes of a statement.** -/
def outcome : Statement → Outcome
  | .declare _ => .declared
  | .evaluate e => expressionOutcome e
  | s => .skipped s.kind.name

/-! ### Blocks -/

/-- The part of the work that the diagnostics of blocks come from. -/
def blockStage : String := "implementation"

/-- The type of variables that are declared without one. -/
def untypedName : String := "Variant"

/-- The line that declares a variable. -/
def variableLine : String × Option String → Command
  | (name, type) => .line (name ++ ": " ++ type.getD untypedName ++ ";")

/-- The script of an assignment. To a member of the current object it is written **piece by
piece**, to anything else as one line. -/
def assignmentScript (left : Expression) (operator : String) (right : Expression) :
    List Command :=
  match left with
  | .access receiver name text =>
    if isThis receiver then
      [.indented [name], .write [" :", operator, " "], .write [right.text], .write [";"],
        .newline]
    else [.line (text ++ " :" ++ operator ++ " " ++ right.text ++ ";")]
  | e => [.line (e.text ++ " :" ++ operator ++ " " ++ right.text ++ ";")]

/-- The script of a statement. Nothing but an assignment is written. -/
def statementScript : Statement → List Command
  | .evaluate (.binary left operator right _) => assignmentScript left operator right
  | _ => []

/-- The variable section of a block, if it has variables. -/
def variableSection (declared : OrderedMap String (Option String)) : List Command :=
  if declared.isEmpty then []
  else .line "var" :: nested (declared.map variableLine)

/-- **The script of a block**, with the word that closes it. -/
def blockScript (statements : List Statement) (close : String) : List Command :=
  variableSection (localVariables statements) ++
    .line "begin" :: nested (statements.flatMap statementScript) ++ [.line close]

/-- The warning about a variable that is declared without a type. -/
def untypedWarning? (location : String) : String × Option String → Option Diagnostic
  | (_, some _) => none
  | (name, none) =>
    some ((Diagnostic.warning blockStage
      ("'" ++ name ++ "' has no type and is declared " ++ untypedName)).located location)

/-- The information about a statement that is left out. -/
def skipInfo? (location : String) (s : Statement) : Option Diagnostic :=
  match outcome s with
  | .skipped kind => some ((Diagnostic.info blockStage ("skipped " ++ kind)).located location)
  | _ => none

/-- **What there is to say about a block** at a place: its untyped variables, then the
statements that are left out. -/
def blockDiagnostics (location : String) (statements : List Statement) : List Diagnostic :=
  (localVariables statements).filterMap (untypedWarning? location) ++
    statements.filterMap (skipInfo? location)

/-! ### Declarations -/

/-- The groups of members in their order. -/
def visibilityGroups : List Visibility := [.everywhere, .inClass, .inFamily]

/-- The members with a visibility. -/
def membersWith (v : Visibility) (members : List Declaration) : List Declaration :=
  members.filter (·.visibility == some v)

/-- The script of a group of members. A group without members has no label either. -/
def groupScript (members : List Declaration) (v : Visibility) : List Command :=
  if (membersWith v members).isEmpty then []
  else .line v.keyword :: nested ((membersWith v members).map (.line ·.name))

/-- The first line of a declaration. -/
def declarationHeader (d : Declaration) : String :=
  d.name ++ " = " ++ d.shape.keyword ++
    match d.shape.parent? with
    | some parent => " (" ++ parent ++ ")"
    | none => ""

/-- The script of a declaration. Members without a visibility are left out. -/
def declarationScript (d : Declaration) : List Command :=
  .line (declarationHeader d) ::
    nested (visibilityGroups.flatMap (groupScript (d.shape.members?.getD [])))

/-- **The script of the declarations** of a unit. -/
def typesScript (u : CompilationUnit) : List Command :=
  u.types.flatMap declarationScript

/-! ### Routines -/

/-- The first line of a routine. -/
def routineHeader (r : Routine) : String :=
  r.kind.keyword ++ " " ++ r.name ++
    match r.returnType with
    | some type => ": " ++ type ++ ";"
    | none => ";"

/-- The script of a routine. -/
def routineScript (r : Routine) : List Command :=
  .line (routineHeader r) :: blockScript r.body "end"

/-- What there is to say about a routine. -/
def routineDiagnostics (r : Routine) : List Diagnostic :=
  blockDiagnostics r.key.display r.body

/-- **The script of the routines** of a unit. -/
def routinesScript (u : CompilationUnit) : List Command :=
  u.routines.flatMap routineScript

/-- What there is to say about the routines of a unit. -/
def routinesDiagnostics (u : CompilationUnit) : List Diagnostic :=
  u.routines.flatMap routineDiagnostics

/-! ### Units -/

/-- The line of the `uses` clause. -/
def usesLine (u : CompilationUnit) : Command :=
  .line ("uses " ++ ", ".intercalate (u.usedUnits.map UsedUnit.display) ++ ";")

/-- The `uses` clause, if any unit is used. -/
def usesSection (u : CompilationUnit) : List Command :=
  if u.usedUnits.isEmpty then [] else [usesLine u, .blank]

/-- The `type` section, if anything is declared. -/
def typesSection (u : CompilationUnit) : List Command :=
  if u.types.isEmpty then [] else .line "type" :: nested (typesScript u) ++ [.blank]

/-- The contents of the interface. -/
def interfaceScript (u : CompilationUnit) : List Command :=
  usesSection u ++ typesSection u ++
    if u.usedUnits.isEmpty && u.types.isEmpty then [.blank] else []

/-- The implementation, if there are routines. -/
def implementationSection (u : CompilationUnit) : List Command :=
  if u.routines.isEmpty then []
  else .line "implementation" :: nested (routinesScript u) ++ [.blank]

/-- The end of the file: the main block of a program, or the end of a library. -/
def closingScript (u : CompilationUnit) : List Command :=
  match u.kind with
  | .program => blockScript (u.body.getD []) "end."
  | .library => [.line "end."]

/-- **The script of a compilation unit.** -/
def unitScript (u : CompilationUnit) : List Command :=
  [.line (u.kind.keyword ++ " " ++ u.name ++ ";"), .blank, .line "interface"] ++
    nested (interfaceScript u) ++ implementationSection u ++ closingScript u

/-- **What there is to say about a compilation unit** when it is rendered. -/
def unitDiagnostics (u : CompilationUnit) : List Diagnostic :=
  routinesDiagnostics u ++
    match u.kind with
    | .program => blockDiagnostics u.name (u.body.getD [])
    | .library => []

/-- **The text of a compilation unit.** -/
def render (indent : Indent) (u : CompilationUnit) : String :=
  ((Layout.Writer.empty indent).run (unitScript u)).text

end DelphiUnits.Pascal

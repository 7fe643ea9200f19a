import Mathlib.Data.List.Basic
import DelphiUnits.GeneratedFile
import DelphiUnits.Proofs.Layout

/-!
# The outline of a compilation unit

The script of a compilation unit says where to go in and where to come back out. Its
**outline** says the same thing without any movement: a list of lines, each with the part it
plays in the file, and the part alone decides how far in the line stands.

The two agree for every compilation unit and every unit of indentation. The proof follows the
scripts: each of them lays out its own piece of the outline from the level at which it is run.

## Main results

* `laysOut_unitScript`: the script of a unit lays out its outline from level zero;
* `render_follows_outline`: the text of a unit is its outline, with what there is to say about
  the level of the writer and about diagnostics.
-/

namespace DelphiUnits.Pascal

open Layout (Command Line LaysOut Writer nested)
open Source (Expression Statement)

/-! ### Parts of a file -/

/-- Where a block stands. -/
inductive BlockPlace where
  /-- In a routine. -/
  | routine
  /-- At the end of a program. -/
  | main
  deriving DecidableEq, Repr

/-- How far in the words `var`, `begin` and `end` of a block stand. -/
def BlockPlace.depth : BlockPlace → Nat
  | .routine => 1
  | .main => 0

/-- The part that a line plays in a file. -/
inductive LineRole where
  /-- The first line, with the kind and the name of the unit. -/
  | header
  /-- The word `interface`. -/
  | interfaceWord
  /-- The `uses` clause. -/
  | usesClause
  /-- The word `type`. -/
  | typeWord
  /-- The first line of a declaration. -/
  | declaration
  /-- The visibility of the members below it. -/
  | label
  /-- A member of a declaration. -/
  | member
  /-- The word `implementation`. -/
  | implementationWord
  /-- The first line of a routine. -/
  | routine
  /-- The word `var` of a block. -/
  | varWord (place : BlockPlace)
  /-- A variable of a block. -/
  | variable (place : BlockPlace)
  /-- The word `begin` of a block. -/
  | beginWord (place : BlockPlace)
  /-- A statement of a block. -/
  | statement (place : BlockPlace)
  /-- The word that closes a block. -/
  | endWord (place : BlockPlace)
  /-- The end of a library. -/
  | terminator
  /-- A blank line. -/
  | separator
  deriving DecidableEq, Repr

/-- **How far in a line stands**, which its part decides. -/
def LineRole.depth : LineRole → Nat
  | .header => 0
  | .interfaceWord => 0
  | .usesClause => 1
  | .typeWord => 1
  | .declaration => 2
  | .label => 3
  | .member => 4
  | .implementationWord => 0
  | .routine => 1
  | .varWord place => place.depth
  | .variable place => place.depth + 1
  | .beginWord place => place.depth
  | .statement place => place.depth + 1
  | .endWord place => place.depth
  | .terminator => 0
  | .separator => 0

/-- The sections of a file. -/
inductive FileSection where
  /-- The header and the word `interface`. -/
  | front
  /-- The `uses` clause. -/
  | uses
  /-- The word `type` and the declarations. -/
  | types
  /-- The word `implementation` and the routines. -/
  | implementation
  /-- The main block of a program, or the end of a library. -/
  | closing
  deriving DecidableEq, Repr

/-- The section that a block belongs to. -/
def BlockPlace.fileSection : BlockPlace → FileSection
  | .routine => .implementation
  | .main => .closing

/-- The section that a line belongs to. Blank lines stand between sections. -/
def LineRole.fileSection? : LineRole → Option FileSection
  | .header => some .front
  | .interfaceWord => some .front
  | .usesClause => some .uses
  | .typeWord => some .types
  | .declaration => some .types
  | .label => some .types
  | .member => some .types
  | .implementationWord => some .implementation
  | .routine => some .implementation
  | .varWord place => some place.fileSection
  | .variable place => some place.fileSection
  | .beginWord place => some place.fileSection
  | .statement place => some place.fileSection
  | .endWord place => some place.fileSection
  | .terminator => some .closing
  | .separator => none

/-- A line of an outline: the part it plays, and what it says. -/
structure OutlineLine where
  /-- The part. -/
  role : LineRole
  /-- The text. -/
  text : String
  deriving DecidableEq, Repr

namespace OutlineLine

/-- The line as it is laid out. -/
def line (l : OutlineLine) : Line := ⟨l.role.depth, l.text⟩

/-- The lines as they are laid out. -/
def lines (outline : List OutlineLine) : List Line := outline.map line

@[simp] theorem lines_cons (l : OutlineLine) (ls : List OutlineLine) :
    lines (l :: ls) = l.line :: lines ls := rfl

@[simp] theorem lines_append (a b : List OutlineLine) : lines (a ++ b) = lines a ++ lines b :=
  List.map_append

/-- Whether a section appears in an outline, with any of its lines. -/
def shows (part : FileSection) (outline : List OutlineLine) : Bool :=
  outline.any (·.role.fileSection? == some part)

end OutlineLine

/-! ### Outlines -/

/-- The line that divides two parts of a file. -/
def separator : OutlineLine := ⟨.separator, ""⟩

/-- What a statement is rendered as, if anything. -/
def statementText? (s : Statement) : Option String :=
  match outcome s with
  | .line text => some text
  | _ => none

/-- The outline of the variables of a block. -/
def variableOutline (place : BlockPlace) (declared : OrderedMap String (Option String)) :
    List OutlineLine :=
  if declared.isEmpty then []
  else
    ⟨.varWord place, "var"⟩ :: declared.map fun (name, type) =>
      ⟨.variable place, name ++ ": " ++ type.getD untypedName ++ ";"⟩

/-- **The outline of a block**, with the word that closes it. -/
def blockOutline (place : BlockPlace) (statements : List Statement) (close : String) :
    List OutlineLine :=
  variableOutline place (localVariables statements) ++
    (⟨.beginWord place, "begin"⟩ ::
      (statements.filterMap statementText?).map fun text => ⟨.statement place, text⟩) ++
    [⟨.endWord place, close⟩]

/-- The outline of the members with a visibility. -/
def groupOutline (members : List Declaration) (v : Source.Visibility) : List OutlineLine :=
  if (membersWith v members).isEmpty then []
  else ⟨.label, v.keyword⟩ :: (membersWith v members).map fun m => ⟨.member, m.name⟩

/-- The outline of a declaration. -/
def declarationOutline (d : Declaration) : List OutlineLine :=
  ⟨.declaration, declarationHeader d⟩ ::
    visibilityGroups.flatMap (groupOutline (d.shape.members?.getD []))

/-- The outline of a routine. -/
def routineOutline (r : Routine) : List OutlineLine :=
  ⟨.routine, routineHeader r⟩ :: blockOutline .routine r.body "end"

/-- The outline of the `uses` clause. -/
def usesOutline (u : CompilationUnit) : List OutlineLine :=
  if u.usedUnits.isEmpty then []
  else
    [⟨.usesClause, "uses " ++ ", ".intercalate (u.usedUnits.map UsedUnit.display) ++ ";"⟩,
      separator]

/-- The outline of the `type` section. -/
def typesOutline (u : CompilationUnit) : List OutlineLine :=
  if u.types.isEmpty then []
  else ⟨.typeWord, "type"⟩ :: u.types.flatMap declarationOutline ++ [separator]

/-- The outline of the implementation. -/
def implementationOutline (u : CompilationUnit) : List OutlineLine :=
  if u.routines.isEmpty then []
  else ⟨.implementationWord, "implementation"⟩ :: u.routines.flatMap routineOutline ++ [separator]

/-- The outline of the end of the file. -/
def closingOutline (u : CompilationUnit) : List OutlineLine :=
  match u.kind with
  | .program => blockOutline .main (u.body.getD []) "end."
  | .library => [⟨.terminator, "end."⟩]

/-- **The outline of a compilation unit.** An interface without contents is a blank line. -/
def outline (u : CompilationUnit) : List OutlineLine :=
  [⟨.header, u.kind.keyword ++ " " ++ u.name ++ ";"⟩, separator, ⟨.interfaceWord, "interface"⟩] ++
    (usesOutline u ++ typesOutline u ++
      if u.usedUnits.isEmpty && u.types.isEmpty then [separator] else []) ++
    implementationOutline u ++ closingOutline u

/-! ### Sections -/

section Sections

variable (part : FileSection)

@[simp] theorem shows_nil : OutlineLine.shows part [] = false := rfl

@[simp] theorem shows_cons (l : OutlineLine) (ls : List OutlineLine) :
    OutlineLine.shows part (l :: ls) =
      (l.role.fileSection? == some part || OutlineLine.shows part ls) := rfl

@[simp] theorem shows_append (a b : List OutlineLine) :
    OutlineLine.shows part (a ++ b) = (OutlineLine.shows part a || OutlineLine.shows part b) :=
  List.any_append

/-- A list of lines of one role shows the section of the role only. -/
theorem shows_map (role : LineRole) {α : Type} (text : α → String) (xs : List α) :
    OutlineLine.shows part (xs.map fun x => ⟨role, text x⟩) =
      (!xs.isEmpty && role.fileSection? == some part) := by
  induction xs with
  | nil => rfl
  | cons x xs ih =>
      rw [List.map_cons, shows_cons, ih]
      cases xs <;> simp

/-- Items that all show the same shows it when there are any. -/
theorem shows_flatMap {α : Type} {f : α → List OutlineLine} {b : Bool} (xs : List α)
    (h : ∀ x, OutlineLine.shows part (f x) = b) :
    OutlineLine.shows part (xs.flatMap f) = (!xs.isEmpty && b) := by
  induction xs with
  | nil => rfl
  | cons x xs ih =>
      rw [List.flatMap_cons, shows_append, h x, ih]
      cases xs <;> simp

/-- A block shows the section it belongs to. -/
theorem shows_blockOutline (place : BlockPlace) (statements : List Statement) (close : String) :
    OutlineLine.shows part (blockOutline place statements close) =
      (place.fileSection == part) := by
  have hvariables : OutlineLine.shows part (variableOutline place (localVariables statements)) =
      (!(localVariables statements).isEmpty && place.fileSection == part) := by
    rw [variableOutline]
    split
    · next h => simp [h]
    · next h =>
      rw [shows_cons, shows_map part (.variable place)
        fun (v : String × Option String) => v.1 ++ ": " ++ v.2.getD untypedName ++ ";"]
      simp [LineRole.fileSection?, h]
  rw [blockOutline, shows_append, shows_append, shows_cons, shows_map part (.statement place),
    hvariables]
  simp only [LineRole.fileSection?, shows_cons, shows_nil, Option.some_beq_some, Bool.or_false]
  cases place.fileSection == part <;> simp

/-- A declaration belongs to the `type` section. -/
theorem shows_declarationOutline (d : Declaration) :
    OutlineLine.shows part (declarationOutline d) = (.types == part) := by
  have hgroup (v : Source.Visibility) (ms : List Declaration) :
      OutlineLine.shows part (groupOutline ms v) =
        (!(membersWith v ms).isEmpty && .types == part) := by
    rw [groupOutline]
    split
    · next h => simp [h]
    · next h =>
      rw [shows_cons, shows_map part .member]
      simp [LineRole.fileSection?, h]
  rw [declarationOutline, shows_cons, visibilityGroups]
  simp only [List.flatMap_cons, List.flatMap_nil, shows_append, shows_nil, hgroup,
    LineRole.fileSection?, Option.some_beq_some]
  cases FileSection.types == part <;> simp

/-- A routine belongs to the implementation. -/
theorem shows_routineOutline (r : Routine) :
    OutlineLine.shows part (routineOutline r) = (.implementation == part) := by
  rw [routineOutline, shows_cons, shows_blockOutline]
  simp [LineRole.fileSection?, BlockPlace.fileSection]

/-- The `uses` clause is there exactly if units are used. -/
theorem shows_usesOutline (u : CompilationUnit) :
    OutlineLine.shows part (usesOutline u) = (!u.usedUnits.isEmpty && .uses == part) := by
  rw [usesOutline]
  split
  · next h => simp [h]
  · next h => simp [h, separator, LineRole.fileSection?]

/-- The `type` section is there exactly if something is declared. -/
theorem shows_typesOutline (u : CompilationUnit) :
    OutlineLine.shows part (typesOutline u) = (!u.types.isEmpty && .types == part) := by
  rw [typesOutline]
  split
  · next h => simp [h]
  · next h =>
    rw [shows_append, shows_cons, shows_flatMap part u.types (shows_declarationOutline part)]
    simp [h, separator, LineRole.fileSection?]

/-- The implementation is there exactly if there are routines. -/
theorem shows_implementationOutline (u : CompilationUnit) :
    OutlineLine.shows part (implementationOutline u) =
      (!u.routines.isEmpty && .implementation == part) := by
  rw [implementationOutline]
  split
  · next h => simp [h]
  · next h =>
    rw [shows_append, shows_cons, shows_flatMap part u.routines (shows_routineOutline part)]
    simp [h, separator, LineRole.fileSection?]

/-- The end of the file is always there. -/
theorem shows_closingOutline (u : CompilationUnit) :
    OutlineLine.shows part (closingOutline u) = (.closing == part) := by
  rw [closingOutline]
  cases u.kind with
  | program => exact shows_blockOutline part .main _ _
  | library => simp [LineRole.fileSection?]

/-- **Which sections an outline has.** -/
theorem shows_outline (u : CompilationUnit) :
    OutlineLine.shows part (outline u) =
      match part with
      | .front => true
      | .uses => !u.usedUnits.isEmpty
      | .types => !u.types.isEmpty
      | .implementation => !u.routines.isEmpty
      | .closing => true := by
  have hblank : OutlineLine.shows part
      (if u.usedUnits.isEmpty && u.types.isEmpty then [separator] else []) = false := by
    split <;> rfl
  rw [outline, shows_append, shows_append, shows_append, shows_append, shows_append, hblank,
    shows_usesOutline, shows_typesOutline, shows_implementationOutline, shows_closingOutline]
  cases part <;> simp [Bool.beq_eq_decide_eq, separator, LineRole.fileSection?]

end Sections

/-! ### Blocks -/

/-- **Both ways of writing an assignment** lay out the same line. -/
theorem laysOut_assignmentScript (level : Nat) (left : Expression) (operator : String)
    (right : Expression) :
    LaysOut level (assignmentScript left operator right)
      [⟨level, target left ++ " :" ++ operator ++ " " ++ right.text ++ ";"⟩] := by
  cases left with
  | access receiver name text =>
      rw [assignmentScript, target]
      split
      · have hpieces := LaysOut.pieces level [name] [[" :", operator, " "], [right.text], [";"]]
        have hjoin : String.join ([name] ++ [[" :", operator, " "], [right.text], [";"]].flatten) =
            name ++ " :" ++ operator ++ " " ++ right.text ++ ";" := by
          simp [String.append_assoc]
        rw [hjoin] at hpieces
        exact hpieces
      · exact .line level _
  | binary | this | identifier | call | literal | raw => exact .line level _

/-- The script of a statement lays out what the statement is rendered as. -/
theorem laysOut_statementScript (level : Nat) (s : Statement) :
    LaysOut level (statementScript s) ((statementText? s).toList.map (⟨level, ·⟩)) := by
  cases s with
  | evaluate e =>
      cases e with
      | binary left operator right text => exact laysOut_assignmentScript level left operator right
      | access | this | identifier | call | literal | raw => exact .nil level
  | declare | conditional | whileLoop | forLoop | returning | block | unsupported =>
      exact .nil level

/-- The variable section lays out the variables. -/
theorem laysOut_variableSection (place : BlockPlace)
    (declared : OrderedMap String (Option String)) :
    LaysOut place.depth (variableSection declared)
      (OutlineLine.lines (variableOutline place declared)) := by
  rw [variableSection, variableOutline]
  split
  · exact .nil _
  · refine .cons "var" (.nested (by cases place <;> decide) ?_)
    rw [List.map_map]
    exact .map_line (fun (v : String × Option String) => v.1 ++ ": " ++ v.2.getD untypedName ++ ";")
      _ declared

/-- **The script of a block lays out its outline** where the block stands. -/
theorem laysOut_blockScript (place : BlockPlace) (statements : List Statement) (close : String) :
    LaysOut place.depth (blockScript statements close)
      (OutlineLine.lines (blockOutline place statements close)) := by
  have hbody : LaysOut place.depth
      (nested (statements.flatMap statementScript))
      (OutlineLine.lines ((statements.filterMap statementText?).map
        fun text => ⟨.statement place, text⟩)) := by
    refine .nested (by cases place <;> decide) ?_
    rw [OutlineLine.lines, List.map_map, List.filterMap_eq_flatMap_toList, List.map_flatMap]
    exact .flatMap statements (laysOut_statementScript (place.depth + 1))
  rw [blockScript, blockOutline]
  rw [OutlineLine.lines_append, OutlineLine.lines_append]
  have hvariables := laysOut_variableSection place (localVariables statements)
  exact (hvariables.append (hbody.cons "begin")).append (.line _ close)

/-! ### Declarations and routines -/

/-- The script of a group lays out its outline. -/
theorem laysOut_groupScript (members : List Declaration) (v : Source.Visibility) :
    LaysOut 3 (groupScript members v) (OutlineLine.lines (groupOutline members v)) := by
  rw [groupScript, groupOutline]
  split
  · exact .nil _
  · refine .cons v.keyword (.nested (by decide) ?_)
    rw [List.map_map]
    exact .map_line Declaration.name 4 _

/-- The script of a declaration lays out its outline. -/
theorem laysOut_declarationScript (d : Declaration) :
    LaysOut 2 (declarationScript d) (OutlineLine.lines (declarationOutline d)) := by
  refine .cons (declarationHeader d) (.nested (by decide) ?_)
  rw [List.map_flatMap]
  exact .flatMap _ fun v => laysOut_groupScript _ v

/-- The script of a routine lays out its outline. -/
theorem laysOut_routineScript (r : Routine) :
    LaysOut 1 (routineScript r) (OutlineLine.lines (routineOutline r)) :=
  .cons (routineHeader r) (laysOut_blockScript .routine r.body "end")

/-! ### Units -/

/-- The `uses` clause lays out its outline. -/
theorem laysOut_usesSection (u : CompilationUnit) :
    LaysOut 1 (usesSection u) (OutlineLine.lines (usesOutline u)) := by
  rw [usesSection, usesOutline]
  split
  · exact .nil _
  · exact .cons _ (.blank _)

/-- The `type` section lays out its outline. -/
theorem laysOut_typesSection (u : CompilationUnit) :
    LaysOut 1 (typesSection u) (OutlineLine.lines (typesOutline u)) := by
  rw [typesSection, typesOutline]
  split
  · exact .nil _
  · rw [OutlineLine.lines_append, OutlineLine.lines_cons, OutlineLine.lines, List.map_flatMap]
    have hdeclarations := LaysOut.flatMap u.types laysOut_declarationScript
    exact (LaysOut.cons "type" (.nested (by decide) hdeclarations)).append (.blank _)

/-- The contents of the interface lay out their outline. -/
theorem laysOut_interfaceScript (u : CompilationUnit) :
    LaysOut 1 (interfaceScript u)
      (OutlineLine.lines (usesOutline u ++ typesOutline u ++
        if u.usedUnits.isEmpty && u.types.isEmpty then [separator] else [])) := by
  rw [OutlineLine.lines_append, OutlineLine.lines_append]
  refine ((laysOut_usesSection u).append (laysOut_typesSection u)).append ?_
  split
  · exact .blank _
  · exact .nil _

/-- The implementation lays out its outline. -/
theorem laysOut_implementationSection (u : CompilationUnit) :
    LaysOut 0 (implementationSection u) (OutlineLine.lines (implementationOutline u)) := by
  rw [implementationSection, implementationOutline]
  split
  · exact .nil _
  · rw [OutlineLine.lines_append, OutlineLine.lines_cons, OutlineLine.lines, List.map_flatMap]
    have hroutines := LaysOut.flatMap u.routines laysOut_routineScript
    exact (LaysOut.cons "implementation" (.nested (by decide) hroutines)).append (.blank _)

/-- The end of the file lays out its outline. -/
theorem laysOut_closingScript (u : CompilationUnit) :
    LaysOut 0 (closingScript u) (OutlineLine.lines (closingOutline u)) := by
  rw [closingScript, closingOutline]
  cases u.kind with
  | program => exact laysOut_blockScript .main _ _
  | library => exact .line _ _

/-- **The script of a compilation unit lays out its outline** from level zero. -/
theorem laysOut_unitScript (u : CompilationUnit) :
    LaysOut 0 (unitScript u) (OutlineLine.lines (outline u)) := by
  rw [unitScript, outline]
  rw [OutlineLine.lines_append, OutlineLine.lines_append, OutlineLine.lines_append]
  have hheader := (LaysOut.line 0 (u.kind.keyword ++ " " ++ u.name ++ ";")).append
    ((LaysOut.blank 0).append (.line 0 "interface"))
  have hinterface := LaysOut.nested (by decide) (laysOut_interfaceScript u)
  exact ((hheader.append hinterface).append (laysOut_implementationSection u)).append
    (laysOut_closingScript u)

/-- **The text of a unit is its outline**, whatever the unit of indentation, and each of the
optional sections is there exactly if it has contents. The writer ends at level zero, never
goes back out at level zero and is never stopped in a change of its level, and what is said
about the unit does not depend on the indentation. -/
theorem render_follows_outline (u : CompilationUnit) :
    (∀ indent, render indent u = Line.renderAll indent (OutlineLine.lines (outline u))) ∧
    (OutlineLine.shows .uses (outline u) ↔ u.usedUnits ≠ []) ∧
    (OutlineLine.shows .types (outline u) ↔ u.types ≠ []) ∧
    (OutlineLine.shows .implementation (outline u) ↔ u.routines ≠ []) ∧
    (∀ indent, ((Writer.empty indent).run (unitScript u)).level = 0) ∧
    (∀ indent before after, unitScript u = before ++ .dedent :: after →
      0 < ((Writer.empty indent).run before).level) ∧
    (∀ indent before delta after, unitScript u = before ++ .adjust delta :: after →
      (((Writer.empty indent).run (before ++ [.adjust delta])).level : Int) =
        ((Writer.empty indent).run before).level + delta) ∧
    (∀ settings earlier, (GeneratedFile.ofDraft settings ⟨u, earlier⟩).diagnostics =
      earlier ++ unitDiagnostics u) := by
  have hlayout := laysOut_unitScript u
  have hfree (indent : Indent) : Layout.MovesFreely (Writer.empty indent).level (unitScript u) :=
    hlayout.free
  refine ⟨fun _ => hlayout.run_text, ?_, ?_, ?_, fun _ => hlayout.run_level rfl, ?_, ?_,
    fun _ _ => rfl⟩
  · simp [shows_outline]
  · simp [shows_outline]
  · simp [shows_outline]
  · intro indent before after hsplit
    have hmoves := hfree indent
    rw [hsplit] at hmoves
    exact hmoves.level_pos
  · intro indent before delta after hsplit
    have hmoves := hfree indent
    rw [hsplit] at hmoves
    exact hmoves.level_adjust

end DelphiUnits.Pascal

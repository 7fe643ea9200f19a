import DelphiUnits.Proofs.GeneratedFile.Draft
import DelphiUnits.Proofs.GeneratedFile.Failure
import DelphiUnits.Proofs.Pascal.Outline

/-!
# What a generated file does not depend on

Much of a document never reaches the generated file: the parameters of functions, the types of
properties, the values that variables start with, and all that is inside a skipped statement. To
**erase** a document is to put one fixed thing in the place of each of these parts. Two documents
that are the same once they are erased give the same file, or fail with the same error.

Erasure is carried through the whole way of a document. What it registers is erased along with it;
a registration and the erasure of a unit commute, so a run does not bring back what was erased; and
neither the outline of a unit nor what there is to say about it sees a difference. The errors come
from the imports and the default export, which are never erased.

## Main results

* `Pascal.outcome_erase`: what becomes of a statement does not depend on what is erased;
* `Pascal.CompilationUnit.erase_registerAll`: a run and the erasure of a unit commute;
* `Pascal.outline_erase`, `Pascal.unitDiagnostics_erase`: the text of a unit and its diagnostics do
  not depend on what is erased;
* `generate_eq_of_erase_eq`: neither does a generated file.
-/

namespace DelphiUnits

/-! ### Erased documents -/

namespace Source

/-- What is kept of the expression that is assigned to: its text, and of a member of the current
object its name. -/
def Expression.keptOfLeft : Expression → String
  | .access .this name _ => name
  | .access (.identifier "this") name _ => name
  | e => e.text

/-- A variable without its initial value. -/
def Variable.erase (v : Variable) : Variable :=
  { v with initializer := none }

/-- **A statement without what is not translated.** Assignments keep their operator and what is
kept of their operands, other expressions their kind. Statements that hold others keep nothing. -/
def Statement.erase : Statement → Statement
  | .declare declarations => .declare (declarations.map Variable.erase)
  | .evaluate (.binary left operator right _) =>
    .evaluate (.binary (.raw left.keptOfLeft none) operator (.raw right.text none) "")
  | .evaluate e => .evaluate (.raw "" (some e.syntaxKind))
  | .conditional _ _ _ => .conditional (.raw "" none) [] none
  | .whileLoop _ _ => .whileLoop (.raw "" none) []
  | .forLoop _ _ _ _ => .forLoop none none none []
  | .returning _ => .returning none
  | .block _ => .block []
  | .unsupported => .unsupported

/-- There is nothing more to erase in an erased statement. -/
@[simp] theorem Statement.erase_erase (s : Statement) : s.erase.erase = s.erase := by
  cases s with
  | declare declarations =>
      rw [Statement.erase, Statement.erase, List.map_map]
      rfl
  | evaluate e => cases e <;> rfl
  | conditional | whileLoop | forLoop | returning | block | unsupported => rfl

/-- A function without its parameters. -/
def Function.erase (f : Function) : Function :=
  { f with parameters := [], body := f.body.map Statement.erase }

/-- A property without its type, as if it did not belong to the class itself. -/
def Property.erase (p : Property) : Property :=
  { p with type := none, isStatic := false }

/-- A class with its properties erased. -/
def Class.erase (c : Class) : Class :=
  { c with properties := c.properties.map Property.erase }

/-- **A document without what is not translated.** -/
def Document.erase (d : Document) : Document :=
  ⟨d.imports, d.functions.map Function.erase, d.classes.map Class.erase⟩

end Source

/-! ### Maps with other values -/

namespace OrderedMap

variable {κ ν : Type} [DecidableEq κ] (f : ν → ν)

/-- Putting a value under a key commutes with a change of values. -/
theorem map_insert (m : OrderedMap κ ν) (key : κ) (value : ν) :
    (m.insert key value).map (Prod.map id f) = insert (m.map (Prod.map id f)) key (f value) := by
  induction m with
  | nil => rfl
  | cons entry rest ih =>
      obtain ⟨k, v⟩ := entry
      rw [insert, List.map_cons, Prod.map_apply, id, insert]
      split
      · rfl
      · rw [List.map_cons, ih]
        rfl

/-- Inserting pairs commutes with a change of values. -/
theorem map_insertMany (m : OrderedMap κ ν) (pairs : List (κ × ν)) :
    (m.insertMany pairs).map (Prod.map id f) =
      insertMany (m.map (Prod.map id f)) (pairs.map (Prod.map id f)) := by
  induction pairs generalizing m with
  | nil => rfl
  | cons pair rest ih =>
      rw [List.map_cons, insertMany, List.foldl_cons, ← insertMany, ih, map_insert]
      rfl

end OrderedMap

open Pascal (CompilationUnit Registration)
open Source (Document)

namespace Pascal

open Source (Expression Statement)

/-! ### Statements -/

/-- What is kept of the left side is what the assignment is made to. -/
theorem keptOfLeft_eq (e : Expression) : e.keptOfLeft = target e := by
  fun_cases Expression.keptOfLeft e with
  | case1 name text => rfl
  | case2 name text => rfl
  | case3 e hthis hnamed =>
      cases e with
      | access receiver name text =>
          have hother : isThis receiver = false := by
            cases receiver with
            | this => exact absurd rfl (hthis name text)
            | identifier word =>
                refine beq_false_of_ne ?_
                rintro rfl
                exact hnamed name text rfl
            | binary | access | call | literal | raw => rfl
          rw [target, hother]
          rfl
      | binary | this | identifier | call | literal | raw => rfl

/-- **What becomes of a statement** does not depend on what is erased. -/
@[simp] theorem outcome_erase (s : Statement) : outcome s.erase = outcome s := by
  cases s with
  | evaluate e =>
      cases e with
      | binary left operator right text =>
          rw [Statement.erase, outcome, outcome, expressionOutcome, expressionOutcome,
            ← keptOfLeft_eq left]
          rfl
      | access | this | identifier | call | literal | raw => rfl
  | declare | conditional | whileLoop | forLoop | returning | block | unsupported => rfl

/-- The variables of a block do not depend on their initial values. -/
@[simp] theorem localVariables_map_erase (statements : List Statement) :
    localVariables (statements.map Statement.erase) = localVariables statements := by
  have hdeclared (s : Statement) :
      localVariables.declared s.erase = (localVariables.declared s).map Source.Variable.erase := by
    cases s with
    | evaluate e => cases e <;> rfl
    | declare | conditional | whileLoop | forLoop | returning | block | unsupported => rfl
  rw [localVariables, localVariables, List.flatMap_map]
  simp only [hdeclared, ← List.map_flatMap, List.foldl_map]
  rfl

/-- The outline of a block does not depend on what is erased. -/
@[simp] theorem blockOutline_map_erase (place : BlockPlace) (statements : List Statement)
    (close : String) :
    blockOutline place (statements.map Statement.erase) close =
      blockOutline place statements close := by
  have htext (s : Statement) : statementText? s.erase = statementText? s := by
    rw [statementText?, statementText?, outcome_erase]
  simp only [blockOutline, localVariables_map_erase, List.filterMap_map, Function.comp_def, htext]

/-- What there is to say about a block does not depend on what is erased. -/
@[simp] theorem blockDiagnostics_map_erase (location : String) (statements : List Statement) :
    blockDiagnostics location (statements.map Statement.erase) =
      blockDiagnostics location statements := by
  have hskip (s : Statement) : skipInfo? location s.erase = skipInfo? location s := by
    rw [skipInfo?, skipInfo?, outcome_erase]
  simp only [blockDiagnostics, localVariables_map_erase, List.filterMap_map, Function.comp_def,
    hskip]

/-! ### Erased units -/

/-- A declaration as one of a variable without a type. -/
def Declaration.untyped (d : Declaration) : Declaration :=
  { d with shape := .var none }

/-- A member of a class without its type, as if it did not belong to the class itself. -/
def Member.erase (m : Member) : Member :=
  ⟨m.entry.untyped, false⟩

/-- What is declared, with the members of a class erased. -/
def Shape.erase : Shape → Shape
  | .classType parent members => .classType parent (members.map (Prod.map id Member.erase))
  | shape => shape

/-- A declaration with its members erased. -/
def Declaration.erase (d : Declaration) : Declaration :=
  { d with shape := d.shape.erase }

/-- A routine without its parameters and without what is not translated in its body. -/
def Routine.erase (r : Routine) : Routine :=
  { r with parameters := [], body := r.body.map Statement.erase }

/-- **A unit without what is not translated.** -/
def CompilationUnit.erase (u : CompilationUnit) : CompilationUnit :=
  { u with
    types := u.types.map Declaration.erase
    routines := u.routines.map Routine.erase
    body := u.body.map (List.map Statement.erase) }

/-- Declarations keep their keys. -/
@[simp] theorem Declaration.key_erase (d : Declaration) : d.erase.key = d.key := by
  obtain ⟨name, visibility, shape⟩ := d
  cases shape <;> rfl

/-- Routines keep their keys. -/
@[simp] theorem Routine.key_erase (r : Routine) : r.erase.key = r.key := rfl

/-- Routines grow by what is kept of the statements. -/
theorem Routine.erase_grow (r : Routine) (more : List Statement) :
    (r.grow more).erase = r.erase.grow (more.map Statement.erase) := by
  simp only [Routine.grow, Routine.erase, List.map_append]

/-- The outline of a group does not depend on the types of its members. -/
theorem groupOutline_map_untyped (members : List Declaration) :
    groupOutline (members.map Declaration.untyped) = groupOutline members := by
  funext v
  have hgroup : membersWith v (members.map Declaration.untyped) =
      (membersWith v members).map Declaration.untyped :=
    List.filter_map
  rw [groupOutline, groupOutline, hgroup, List.isEmpty_map, List.map_map]
  rfl

/-- The outline of a declaration does not depend on what is erased. -/
@[simp] theorem declarationOutline_erase (d : Declaration) :
    declarationOutline d.erase = declarationOutline d := by
  obtain ⟨name, visibility, shape⟩ := d
  cases shape with
  | classType parent members =>
      have hmembers : (Shape.classType parent members).erase.members?.getD [] =
          ((Shape.classType parent members).members?.getD []).map Declaration.untyped := by
        simp [Shape.erase, Shape.members?, Member.erase, Function.comp_def]
      rw [declarationOutline, declarationOutline, Declaration.erase, hmembers,
        groupOutline_map_untyped]
      rfl
  | record | var | const | function => rfl

/-- The outline of a routine does not depend on what is erased. -/
@[simp] theorem routineOutline_erase (r : Routine) : routineOutline r.erase = routineOutline r := by
  rw [routineOutline, routineOutline, Routine.erase, blockOutline_map_erase]
  rfl

/-- The main block of an erased unit. -/
theorem getD_body_erase (u : CompilationUnit) :
    u.erase.body.getD [] = (u.body.getD []).map Statement.erase := by
  rw [CompilationUnit.erase]
  cases u.body <;> rfl

/-- **The outline of a unit** does not depend on what is erased. -/
theorem outline_erase (u : CompilationUnit) : outline u.erase = outline u := by
  have htypes : typesOutline u.erase = typesOutline u := by
    simp only [typesOutline, CompilationUnit.erase, List.isEmpty_map, List.flatMap_map,
      declarationOutline_erase]
  have himplementation : implementationOutline u.erase = implementationOutline u := by
    simp only [implementationOutline, CompilationUnit.erase, List.isEmpty_map, List.flatMap_map,
      routineOutline_erase]
  have hclosing : closingOutline u.erase = closingOutline u := by
    rw [closingOutline, closingOutline, getD_body_erase, blockOutline_map_erase]
    rfl
  have hempty : u.erase.types.isEmpty = u.types.isEmpty := List.isEmpty_map
  rw [outline, outline, htypes, himplementation, hclosing, hempty]
  rfl

/-- **What there is to say about a unit** does not depend on what is erased. -/
theorem unitDiagnostics_erase (u : CompilationUnit) :
    unitDiagnostics u.erase = unitDiagnostics u := by
  have hroutine (r : Routine) : routineDiagnostics r.erase = routineDiagnostics r :=
    blockDiagnostics_map_erase r.key.display r.body
  have hroutines : routinesDiagnostics u.erase = routinesDiagnostics u := by
    simp only [routinesDiagnostics, CompilationUnit.erase, List.flatMap_map, hroutine]
  rw [unitDiagnostics, unitDiagnostics, hroutines, getD_body_erase, blockDiagnostics_map_erase]
  rfl

/-! ### Erased registrations -/

/-- **A registration without what is not translated.** -/
def Registration.erase : Registration → Registration
  | .use name path => .use name path
  | .declare d => .declare d.erase
  | .routine key _ returnType body pushed =>
    .routine key [] returnType (body.map Statement.erase) (pushed.map Statement.erase)
  | .mainBlock body => .mainBlock (body.map Statement.erase)

namespace CompilationUnit

/-- Declaring and erasing commute. -/
theorem erase_declare (u : CompilationUnit) (d : Declaration) :
    (u.declare d).erase = u.erase.declare d.erase := by
  have htypes : (addNew Declaration.key u.types d.normalize).map Declaration.erase =
      addNew Declaration.key (u.types.map Declaration.erase) d.erase.normalize :=
    map_addNew Declaration.key_erase u.types d.normalize
  rw [declare_eq, declare_eq, erase, htypes]
  rfl

/-- Adding a routine and erasing commute. -/
theorem erase_addRoutine (u : CompilationUnit) (r : Routine) :
    (u.addRoutine r).erase = u.erase.addRoutine r.erase := by
  have hroutines : (addNew Routine.key u.routines r).map Routine.erase =
      addNew Routine.key (u.routines.map Routine.erase) r.erase :=
    map_addNew Routine.key_erase u.routines r
  rw [addRoutine_eq, addRoutine_eq, erase, hroutines]
  rfl

/-- Pushing a statement and erasing commute. -/
theorem erase_pushStatement (u : CompilationUnit) (key : Routine.Key) (s : Statement) :
    (u.pushStatement key s).erase = u.erase.pushStatement key s.erase := by
  have hgrow (r : Routine) : (r.grow (if r.key = key then [s] else [])).erase =
      r.erase.grow (if r.erase.key = key then [s.erase] else []) := by
    rw [Routine.erase_grow, Routine.key_erase]
    split <;> rfl
  rw [pushStatement_eq, pushStatement_eq]
  simp only [erase, List.map_map, Function.comp_def, hgrow]

/-- Pushing statements and erasing commute. -/
theorem erase_pushAll (u : CompilationUnit) (key : Routine.Key) (pushed : List Statement) :
    (u.pushAll key pushed).erase = u.erase.pushAll key (pushed.map Statement.erase) := by
  induction pushed generalizing u with
  | nil => rfl
  | cons s rest ih =>
      rw [List.map_cons, pushAll, List.foldl_cons, pushAll, List.foldl_cons, ← erase_pushStatement]
      exact ih (u.pushStatement key s)

/-- **A registration and erasing commute.** -/
theorem erase_register (u : CompilationUnit) (call : Registration) :
    (u.register call).erase = u.erase.register call.erase := by
  cases call with
  | use name path =>
      rw [register, addUse_eq, Registration.erase, register, addUse_eq]
      rfl
  | declare d => exact erase_declare u d
  | routine key parameters returnType body pushed =>
      rw [register, erase_pushAll, erase_addRoutine]
      rfl
  | mainBlock body => rfl

/-- **A run and erasing commute.** -/
theorem erase_registerAll (u : CompilationUnit) (calls : List Registration) :
    (u.registerAll calls).erase = u.erase.registerAll (calls.map Registration.erase) := by
  induction calls generalizing u with
  | nil => rfl
  | cons call rest ih => rw [registerAll_cons, ih, erase_register, List.map_cons, registerAll_cons]

end CompilationUnit

/-! ### Erased drafts -/

/-- The members that erased properties become. -/
theorem membersOf_map_erase (properties : List Source.Property) :
    Declaration.membersOf (properties.map Source.Property.erase) =
      (Declaration.membersOf properties).map (Prod.map id Member.erase) := by
  rw [Declaration.membersOf, Declaration.membersOf, OrderedMap.map_insertMany, List.map_map, List.map_map]
  rfl

namespace Registration

/-- A function registers the same once it is erased. -/
theorem map_erase_ofFunction_erase (f : Source.Function) :
    (ofFunction f.erase).map erase = (ofFunction f).map erase := by
  have hbody : (f.body.map Statement.erase).map Statement.erase = f.body.map Statement.erase := by
    simp only [List.map_map, Function.comp_def, Statement.erase_erase]
  rw [ofFunction, ofFunction, Source.Function.erase]
  cases f.name with
  | none =>
      cases f.defaultExport with
      | false => rfl
      | true => exact congrArg (fun body => [Registration.mainBlock body]) hbody
  | some name =>
      simp only [List.map_append, List.map_singleton, erase, hbody]

/-- A class registers the same once it is erased. -/
theorem map_erase_ofClass_erase (c : Source.Class) :
    (ofClass c.erase).map erase = (ofClass c).map erase := by
  have hclass : (Declaration.ofClass c.name c.parent
        (Declaration.membersOf (c.properties.map Source.Property.erase))).erase =
      (Declaration.ofClass c.name c.parent (Declaration.membersOf c.properties)).erase := by
    rw [membersOf_map_erase, Declaration.erase, Declaration.erase, Declaration.ofClass,
      Declaration.ofClass, Shape.erase, Shape.erase, List.map_map]
    rfl
  rw [ofClass, ofClass, Source.Class.erase, List.flatMap_map, List.map_append, List.map_append,
    List.map_singleton, List.map_singleton, erase, erase, hclass]
  rfl

/-- **A document registers the same** once it is erased. -/
theorem map_erase_ofDocument_erase (settings : Settings) (document : Document) :
    (ofDocument settings document.erase).map erase = (ofDocument settings document).map erase := by
  -- Erased on both sides: initial values of properties are not erased, so what a class registers
  -- for them still holds an assignment in full.
  simp only [ofDocument, Document.erase, List.map_append, List.map_flatMap, List.flatMap_map,
    map_erase_ofFunction_erase, map_erase_ofClass_erase]

end Registration

end Pascal

/-- **A file depends on its unit** only through what is left when the unit is erased. -/
theorem GeneratedFile.ofDraft_eq_of_erase_eq {u v : CompilationUnit} (h : u.erase = v.erase)
    (settings : Settings) (earlier : List Diagnostic) :
    GeneratedFile.ofDraft settings ⟨u, earlier⟩ = .ofDraft settings ⟨v, earlier⟩ := by
  have hkind : u.kind = v.kind :=
    (congrArg CompilationUnit.kind h : u.erase.kind = v.erase.kind)
  have hname : u.name = v.name :=
    (congrArg CompilationUnit.name h : u.erase.name = v.erase.name)
  have houtline : Pascal.outline u = Pascal.outline v := by
    rw [← Pascal.outline_erase, h, Pascal.outline_erase]
  have hrender : Pascal.render settings.indent u = Pascal.render settings.indent v := by
    rw [Pascal.render, Pascal.render, (Pascal.laysOut_unitScript u).run_text,
      (Pascal.laysOut_unitScript v).run_text, houtline]
  have hdiagnostics : Pascal.unitDiagnostics u = Pascal.unitDiagnostics v := by
    rw [← Pascal.unitDiagnostics_erase, h, Pascal.unitDiagnostics_erase]
  rw [ofDraft, ofDraft, hkind, hname, hrender, hdiagnostics]

/-- What stops a draft is not erased. -/
theorem draftUnit_snd_erase (settings : Settings) (request : Request) (document : Document) :
    (draftUnit settings request document.erase).2 = (draftUnit settings request document).2 := by
  rw [draftUnit_snd, draftUnit_snd, Document.erase, List.any_map]
  rfl

/-- **Erasing a document does not change its file**, nor the error it fails with. -/
theorem generate_erase (settings : Settings) (request : Request) (document : Document) :
    generate settings request document.erase = generate settings request document := by
  have hstops := draftUnit_snd_erase settings request document
  cases hresult : generate settings request document with
  | error e => rw [generate_eq_error_iff, hstops, ← generate_eq_error_iff, hresult]
  | ok g =>
      obtain ⟨hfinished, rfl⟩ := generate_eq_ok_iff.mp hresult
      rw [generate_eq_ok_iff]
      refine ⟨hstops.trans hfinished, ?_⟩
      rw [draftUnit_eq hfinished, draftUnit_eq (hstops.trans hfinished)]
      have hunit : ((CompilationUnit.empty request.unitKind request.name).registerAll
            (Registration.ofDocument settings document)).erase =
          ((CompilationUnit.empty request.unitKind request.name).registerAll
            (Registration.ofDocument settings document.erase)).erase := by
        rw [CompilationUnit.erase_registerAll, CompilationUnit.erase_registerAll,
          Registration.map_erase_ofDocument_erase]
      rw [GeneratedFile.ofDraft_eq_of_erase_eq hunit]
      simp only [Document.erase, List.filterMap_map]
      rfl

/-- **A generated file does not depend on what is not translated.** Two documents that are the same
once they are erased give the same kind, name, text and diagnostics, or fail with the same error,
for every request and all settings. -/
theorem generate_eq_of_erase_eq {first second : Document} (h : first.erase = second.erase)
    (settings : Settings) (request : Request) :
    generate settings request first = generate settings request second := by
  calc generate settings request first
      = generate settings request first.erase := (generate_erase settings request first).symm
    _ = generate settings request second.erase := by rw [h]
    _ = generate settings request second := generate_erase settings request second

/-- A document with a part of each kind that is erased. -/
def tallyDocument (parameters : List Source.Parameter)
    (start receiver value condition : Source.Expression) (nested : List Source.Statement)
    (type : Option String) (isStatic : Bool) : Document :=
  ⟨[⟨"@delphi/System"⟩],
    [⟨some "run", true, false, parameters, some "number",
      [.declare [⟨"n", none, some start⟩],
        .evaluate (.binary (.access receiver "count" start.text) "=" value condition.text),
        .conditional condition nested none,
        .evaluate (.call value [start] condition.text)]⟩],
    [⟨"Tally", some "Base", [⟨"size", type, some "8", some .inClass, isStatic⟩]⟩]⟩

/-- Two documents that differ in every part that is erased, and one file for both. -/
theorem generate_tallyDocument :
    let first := tallyDocument [] .this .this (.raw "n" none) .this [] none false
    let second := tallyDocument [⟨"limit", some "int"⟩] (.literal "0") (.identifier "this")
      (.identifier "n") (.identifier "done") [.unsupported, .returning none] (some "int") true
    let request : Request := ⟨"Tally", ⟨"tally.ts"⟩, false⟩
    first.erase = second.erase ∧
    ∃ g, generate (.ofRoot ⟨"in"⟩) request first = .ok g ∧
      generate (.ofRoot ⟨"in"⟩) request second = .ok g ∧ g.diagnostics ≠ [] := by
  intro first second request
  have herased : first.erase = second.erase := rfl
  have hfirst : generate (.ofRoot ⟨"in"⟩) request first = .ok _ :=
    generate_eq_ok_iff.mpr ⟨by decide, rfl⟩
  refine ⟨herased, _, hfirst, ?_, by decide⟩
  exact (generate_eq_of_erase_eq herased (.ofRoot ⟨"in"⟩) request).symm.trans hfirst

end DelphiUnits

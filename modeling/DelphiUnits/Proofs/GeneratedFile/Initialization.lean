import Mathlib.Data.List.DropRight
import DelphiUnits.Proofs.GeneratedFile.Registries
import DelphiUnits.Proofs.Pascal.Outline

/-!
# Constructors in generated files

A constructor comes from the initialized properties of classes, and from nothing else. What it
assigns are their initializers without the blanks at both ends, so it is known from the document
alone: which constructors there are, in which order, what their bodies are, and what lines they have
in the file.

An assignment to a member of the current object is always a line and declares nothing. So a
constructor has no variables, and there is nothing to say about it.

## Main results

* `Text.isTrimmed_iff`: what trimming leaves of a text;
* `constructorBody_eq`: the body of a constructor;
* `routineOutline_constructorRoutine`, `routineDiagnostics_constructorRoutine`: its lines, and that
  nothing is said about it;
* `outline_around_routines`: where routines stand in an outline;
* `generate_initializes_properties`: all of this for every generated file.
-/

namespace DelphiUnits

open Source (Document Statement)

/-! ### Trimming -/

namespace Text

/-- A text is **trimmed** to a part of it if all around the part is blank, and the part neither
starts nor ends with a blank. -/
structure IsTrimmed (whole part : String) : Prop where
  /-- Nothing but blanks stands around the part. -/
  around : ∃ left right, whole.toList = left ++ (part.toList ++ right) ∧
    (∀ c ∈ left, isBlank c = true) ∧ ∀ c ∈ right, isBlank c = true
  /-- The part does not start with a blank. -/
  first : ∀ c ∈ part.toList.head?, isBlank c = false
  /-- The part does not end with a blank. -/
  last : ∀ c ∈ part.toList.getLast?, isBlank c = false

/-- Characters that do not end with a blank stay when the blanks behind them are removed. -/
theorem trimEnd_append {cs right : List Char} (hright : ∀ c ∈ right, isBlank c = true)
    (hlast : ∀ c ∈ cs.getLast?, isBlank c = false) : trimEnd (cs ++ right) = cs := by
  have hself : cs.reverse.dropWhile isBlank = cs.reverse := by
    rw [List.dropWhile_eq_self_iff]
    intro hpos
    have hlast' := hlast (cs.reverse.head (List.ne_nil_of_length_pos hpos)) (by
      rw [← List.head?_reverse]
      exact List.head?_eq_some_head _)
    simpa [List.head_eq_getElem] using hlast'
  rw [trimEnd, List.reverse_append, List.dropWhile_append_of_pos (by simpa using hright), hself,
    List.reverse_reverse]

/-- **What trimming leaves** is the one part that a text is trimmed to. -/
theorem isTrimmed_iff {whole part : String} : IsTrimmed whole part ↔ part = trim whole := by
  constructor
  · rintro ⟨⟨left, right, hwhole, hleft, hright⟩, hfirst, hlast⟩
    have hstart : trimStart whole.toList = trimStart (part.toList ++ right) := by
      rw [hwhole]
      exact List.dropWhile_append_of_pos hleft
    have htrim : trimEnd (trimStart (part.toList ++ right)) = part.toList := by
      cases hpart : part.toList with
      | nil =>
          have hnone : trimStart right = [] := List.dropWhile_eq_nil_iff.mpr hright
          rw [List.nil_append, hnone]
          rfl
      | cons c rest =>
          have hc : isBlank c = false := hfirst c (by rw [hpart]; rfl)
          have hkeeps : trimStart (c :: rest ++ right) = c :: rest ++ right :=
            List.dropWhile_cons_of_neg (by simp [hc])
          rw [hkeeps, trimEnd_append hright (by rwa [hpart] at hlast)]
    rw [trim, hstart, htrim, String.ofList_toList]
  · rintro rfl
    have hpart : (trim whole).toList = (trimStart whole.toList).rdropWhile isBlank :=
      String.toList_ofList
    have hwhole : whole.toList = whole.toList.takeWhile isBlank ++
        ((trim whole).toList ++ (trimStart whole.toList).rtakeWhile isBlank) := by
      rw [hpart, List.rdropWhile_append_rtakeWhile]
      exact List.takeWhile_append_dropWhile.symm
    refine ⟨⟨_, _, hwhole, fun c => List.mem_takeWhile_imp, fun c => List.mem_rtakeWhile_imp⟩,
      ?_, ?_⟩
    · -- What is left starts as the text does without the blanks at its start.
      intro c hc
      rw [hpart] at hc
      obtain ⟨rest, hrest⟩ := List.rdropWhile_prefix isBlank (l := trimStart whole.toList)
      have hhead : (whole.toList.dropWhile isBlank).head? = some c := by
        rw [← trimStart, ← hrest, List.head?_append, hc]
        rfl
      have hnot := List.head?_dropWhile_not isBlank whole.toList
      rwa [hhead] at hnot
    · intro c hc
      rw [hpart] at hc
      have hne := List.ne_nil_of_mem (List.mem_of_getLast? hc)
      have hnot := List.rdropWhile_last_not isBlank _ hne
      rw [List.getLast?_eq_some_getLast hne] at hc
      obtain rfl := Option.some.inj hc
      simpa using hnot

end Text

namespace Pascal

variable {settings : Settings} {request : Request} {document : Document}

/-! ### Bodies -/

/-- **What the constructor of a name assigns**: in the order of the document the initialized
properties of all classes with that name, each with its value. -/
def assignments (classes : List Source.Class) (name : String) : List (String × String) :=
  (classes.filter (·.name = name)).flatMap fun c => c.properties.filterMap fun p =>
    p.initializer.map fun initializer => (p.name, Text.trim initializer)

/-- The assignment of a value to a property of the current object. -/
def assignment : String × String → Statement
  | (property, value) =>
    .evaluate (.binary (.access .this property ("this." ++ property)) "=" (.raw value none)
      ("this." ++ property ++ " = " ++ value))

/-- **The body of a constructor.** -/
theorem constructorBody_eq (classes : List Source.Class) (name : String) :
    constructorBody classes name = (assignments classes name).map assignment := by
  rw [constructorBody, assignments, List.map_flatMap]
  refine List.flatMap_congr fun c _ => ?_
  rw [initializations, List.map_filterMap]
  simp only [Option.map_map]
  rfl

/-- There is a constructor for each name of a class with initialized properties. -/
theorem mem_initializedNames_iff {classes : List Source.Class} {name : String} :
    name ∈ initializedNames classes ↔
      ∃ c ∈ classes, c.name = name ∧ ∃ p ∈ c.properties, p.initializer.isSome = true := by
  simp only [initializedNames, List.mem_flatMap, List.mem_filterMap, Option.map_eq_some_iff,
    Option.isSome_iff_exists]
  constructor
  · rintro ⟨c, hc, p, hp, initializer, hinitializer, rfl⟩
    exact ⟨c, hc, rfl, p, hp, initializer, hinitializer⟩
  · rintro ⟨c, hc, rfl, p, hp, initializer, hinitializer⟩
    exact ⟨c, hc, p, hp, initializer, hinitializer, rfl⟩

/-- The constructors among the routines of a document. -/
theorem filter_constructor_routines (settings : Settings) (request : Request)
    (document : Document) :
    (unitOf settings request document).routines.filter (·.kind = .constructor)
      = (initializedNames document.classes).eraseDups.map
        (constructorRoutine document.classes) := by
  rw [routines_unitOf, List.filter_append, List.filter_eq_nil_iff.mpr, List.filter_eq_self.mpr,
    List.nil_append]
  · intro r hr
    obtain ⟨name, -, rfl⟩ := List.mem_map.mp hr
    rfl
  · intro r hr
    obtain ⟨named, -, rfl⟩ := List.mem_map.mp hr
    exact Bool.false_ne_true

/-- The routines of a document are its functions and, behind them, its constructors. -/
theorem routines_eq_functions_append (settings : Settings) (request : Request)
    (document : Document) :
    (unitOf settings request document).routines
      = (unitOf settings request document).routines.filter (·.kind = .function) ++
        (initializedNames document.classes).eraseDups.map
          (constructorRoutine document.classes) := by
  rw [filter_function_routines, routines_unitOf]

/-! ### Lines -/

/-- An assignment is a line. -/
theorem outcome_assignment (a : String × String) :
    outcome (assignment a) = .line (a.1 ++ " := " ++ a.2 ++ ";") := by
  obtain ⟨property, value⟩ := a
  have hoperator (front : String) : front ++ " :" ++ "=" ++ " " = front ++ " := " := by
    rw [String.append_assoc, String.append_assoc]
    exact congrArg (front ++ ·) (by decide)
  change Outcome.line (property ++ " :" ++ "=" ++ " " ++ value ++ ";") = _
  rw [hoperator]

/-- Assignments declare no variables. -/
theorem localVariables_assignments (as : List (String × String)) :
    localVariables (as.map assignment) = [] := by
  have hnone : (as.map assignment).flatMap localVariables.declared = [] := by
    rw [List.flatMap_map]
    exact List.flatMap_eq_nil_iff.mpr fun _ _ => rfl
  rw [localVariables, hnone]
  rfl

/-- **The lines of a constructor**: its name, and between two words a line for each assignment. -/
def constructorOutline (classes : List Source.Class) (name : String) : List OutlineLine :=
  [⟨.routine, "constructor " ++ name ++ ";"⟩, ⟨.beginWord .routine, "begin"⟩] ++
    (assignments classes name).map (fun a => ⟨.statement .routine, a.1 ++ " := " ++ a.2 ++ ";"⟩) ++
    [⟨.endWord .routine, "end"⟩]

/-- A constructor has the lines that it should have. -/
theorem routineOutline_constructorRoutine (classes : List Source.Class) (name : String) :
    routineOutline (constructorRoutine classes name) = constructorOutline classes name := by
  have hstatements : ((assignments classes name).map assignment).filterMap statementText?
      = (assignments classes name).map fun a => a.1 ++ " := " ++ a.2 ++ ";" := by
    rw [List.filterMap_map, ← List.filterMap_eq_map]
    refine List.filterMap_congr fun a _ => ?_
    rw [Function.comp_apply, statementText?, outcome_assignment]
    rfl
  have hheader : routineHeader (constructorRoutine classes name) = "constructor " ++ name ++ ";" :=
    rfl
  rw [routineOutline, hheader, constructorRoutine, constructorBody_eq, blockOutline,
    localVariables_assignments, hstatements, List.map_map]
  rfl

/-- **There is nothing to say about a constructor.** -/
theorem routineDiagnostics_constructorRoutine (classes : List Source.Class) (name : String) :
    routineDiagnostics (constructorRoutine classes name) = [] := by
  rw [routineDiagnostics, constructorRoutine, constructorBody_eq, blockDiagnostics,
    localVariables_assignments, List.filterMap_nil, List.nil_append, List.filterMap_eq_nil_iff]
  intro s hs
  obtain ⟨a, -, rfl⟩ := List.mem_map.mp hs
  rw [skipInfo?, outcome_assignment]

/-- What does not show the implementation has no routine. -/
theorem role_ne_routine {ls : List OutlineLine} (h : OutlineLine.shows .implementation ls = false)
    {l : OutlineLine} (hl : l ∈ ls) : l.role ≠ .routine := by
  intro hrole
  refine List.any_eq_false.mp h l hl ?_
  rw [hrole]
  rfl

/-- **Where routines stand**: all in one place of an outline, one after the other. -/
theorem outline_around_routines (u : CompilationUnit) :
    ∃ front back, outline u = front ++ u.routines.flatMap routineOutline ++ back ∧
      ∀ l ∈ front ++ back, l.role ≠ .routine := by
  obtain ⟨interface, hinterface, houtline⟩ : ∃ interface,
      OutlineLine.shows .implementation interface = false ∧
        outline u = interface ++ implementationOutline u ++ closingOutline u := by
    refine ⟨_, ?_, rfl⟩
    rw [shows_append, shows_append, shows_append, shows_usesOutline, shows_typesOutline]
    split <;> simp [separator, LineRole.fileSection?]
  have hclosing : OutlineLine.shows .implementation (closingOutline u) = false :=
    shows_closingOutline .implementation u
  rw [houtline, implementationOutline]
  split
  · next hnone =>
    refine ⟨interface, closingOutline u, ?_, fun l hl => ?_⟩
    · rw [List.isEmpty_iff.mp hnone, List.flatMap_nil]
    · exact (List.mem_append.mp hl).elim (role_ne_routine hinterface) (role_ne_routine hclosing)
  · refine ⟨interface ++ [⟨.implementationWord, "implementation"⟩], separator :: closingOutline u,
      by simp, fun l hl => ?_⟩
    rcases List.mem_append.mp hl with hl | hl
    · rcases List.mem_append.mp hl with hl | hl
      · exact role_ne_routine hinterface hl
      · obtain rfl := List.mem_singleton.mp hl
        intro hrole
        cases hrole
    · rcases List.mem_cons.mp hl with rfl | hl
      · intro hrole
        cases hrole
      · exact role_ne_routine hclosing hl

/-- Nothing would be said otherwise if a document had no constructors. -/
theorem unitDiagnostics_unitOf (settings : Settings) (request : Request) (document : Document) :
    let u := unitOf settings request document
    unitDiagnostics u
      = unitDiagnostics { u with routines := u.routines.filter (·.kind = .function) } := by
  intro u
  have hconstructors : ((initializedNames document.classes).eraseDups.map
      (constructorRoutine document.classes)).flatMap routineDiagnostics = [] := by
    rw [List.flatMap_map]
    exact List.flatMap_eq_nil_iff.mpr fun name _ => routineDiagnostics_constructorRoutine _ name
  have hroutines : routinesDiagnostics u
      = routinesDiagnostics { u with routines := u.routines.filter (·.kind = .function) } := by
    refine (congrArg (List.flatMap routineDiagnostics)
      (routines_eq_functions_append settings request document)).trans ?_
    rw [List.flatMap_append, hconstructors, List.append_nil]
    rfl
  rw [unitDiagnostics, unitDiagnostics, hroutines]

end Pascal

open Layout (Line)
open Pascal (Draft OutlineLine assignment assignments constructorOutline initializedNames outline
  routineOutline unitDiagnostics unitOf)

/-- **Constructors initialize properties**, in every generated file. There is one constructor for
each name that a class with an initialized property has, in the order of the first such properties.
Its body assigns the initialized properties of all classes with that name, in their order, each to
its initializer without the blanks at both ends. In the text the constructors stand behind the
functions, with a line for each assignment and no variables, and there are no other routines;
nothing is said about constructors. -/
theorem generate_initializes_properties {settings : Settings} {request : Request}
    {document : Document} {g : GeneratedFile} (h : generate settings request document = .ok g) :
    let u := (draftUnit settings request document).1.unit
    let names := (initializedNames document.classes).eraseDups
    let functions := u.routines.filter (·.kind = .function)
    (u.routines.filter (·.kind = .constructor) = names.map fun name =>
      ⟨.constructor, name, [], none, (assignments document.classes name).map assignment⟩) ∧
    names.Nodup ∧
    (∀ name, name ∈ names ↔ ∃ c ∈ document.classes, c.name = name ∧
      ∃ p ∈ c.properties, p.initializer.isSome = true) ∧
    (∀ initializer value, Text.IsTrimmed initializer value ↔ value = Text.trim initializer) ∧
    g.content = Line.renderAll settings.indent (OutlineLine.lines (outline u)) ∧
    (∃ front back, outline u = front ++ (functions.flatMap routineOutline ++
        names.flatMap (constructorOutline document.classes)) ++ back ∧
      ∀ l ∈ front ++ back, l.role ≠ .routine) ∧
    g.diagnostics =
      document.imports.filterMap (Pascal.importWarning? settings) ++
        document.functions.filterMap (Draft.functionDiagnostic? request.isMain) ++
        unitDiagnostics { u with routines := functions } := by
  intro u names functions
  obtain ⟨hfinished, rfl⟩ := generate_eq_ok_iff.mp h
  have hu : u = unitOf settings request document := unit_draftUnit hfinished
  have hnames : names = Pascal.addAll id [] (initializedNames document.classes) :=
    (Pascal.addAll_id _).symm
  refine ⟨?_, ?_, ?_, fun _ _ => Text.isTrimmed_iff, (Pascal.laysOut_unitScript u).run_text, ?_, ?_⟩
  · rw [hu, Pascal.filter_constructor_routines]
    refine List.map_congr_left fun name _ => ?_
    rw [Pascal.constructorRoutine, Pascal.constructorBody_eq]
  · rw [hnames, ← List.map_id (Pascal.addAll id [] _)]
    exact Pascal.nodup_map_addAll id _
  · intro name
    rw [List.mem_eraseDups, Pascal.mem_initializedNames_iff]
  · obtain ⟨front, back, houtline, hroles⟩ := Pascal.outline_around_routines u
    refine ⟨front, back, ?_, hroles⟩
    have hroutines : u.routines =
        functions ++ names.map (Pascal.constructorRoutine document.classes) := by
      change u.routines = u.routines.filter _ ++ _
      rw [hu]
      exact Pascal.routines_eq_functions_append settings request document
    rw [houtline, hroutines, List.flatMap_append, List.flatMap_map]
    simp only [Pascal.routineOutline_constructorRoutine]
  · have hsaid : (draftUnit settings request document).1.diagnostics = _ :=
      congrArg Draft.diagnostics (draftUnit_eq hfinished)
    change (draftUnit settings request document).1.diagnostics ++ unitDiagnostics u = _
    rw [hsaid]
    congr 1
    change _ = unitDiagnostics { u with routines := u.routines.filter _ }
    rw [hu]
    exact Pascal.unitDiagnostics_unitOf settings request document

/-- A document with a class that is declared twice, a class whose name differs from its name in
letter case, and a class without initialized properties. -/
def initializingDocument : Document where
  imports := []
  functions := []
  classes := [⟨"Plain", none, [⟨"z", some "int", none, none, false⟩]⟩,
    ⟨"Foo", none, [⟨"a", none, some "\u00a0 1\n", none, false⟩, ⟨"b", none, none, none, false⟩]⟩,
    ⟨"foo", none, [⟨"c", none, some "2", none, true⟩]⟩,
    ⟨"Foo", some "Plain", [⟨"a", none, some "x + y\t", none, false⟩]⟩]

/-- Two constructors: one for both declarations of a class, one for its name in other letter
case. -/
theorem generate_initializingDocument :
    ∃ g, generate (.ofRoot ⟨"in"⟩) ⟨"Unit", ⟨"Unit.ts"⟩, false⟩ initializingDocument = .ok g ∧
      g.diagnostics = [] ∧
      ∃ front back, outline (draftUnit (.ofRoot ⟨"in"⟩) ⟨"Unit", ⟨"Unit.ts"⟩, false⟩
          initializingDocument).1.unit = front ++
        [⟨.routine, "constructor Foo;"⟩, ⟨.beginWord .routine, "begin"⟩,
          ⟨.statement .routine, "a := 1;"⟩, ⟨.statement .routine, "a := x + y;"⟩,
          ⟨.endWord .routine, "end"⟩,
          ⟨.routine, "constructor foo;"⟩, ⟨.beginWord .routine, "begin"⟩,
          ⟨.statement .routine, "c := 2;"⟩, ⟨.endWord .routine, "end"⟩] ++ back := by
  have hgenerated : generate (.ofRoot ⟨"in"⟩) ⟨"Unit", ⟨"Unit.ts"⟩, false⟩ initializingDocument =
      .ok (.ofDraft (.ofRoot ⟨"in"⟩)
        (draftUnit (.ofRoot ⟨"in"⟩) ⟨"Unit", ⟨"Unit.ts"⟩, false⟩ initializingDocument).1) :=
    generate_eq_ok_iff.mpr ⟨rfl, rfl⟩
  obtain ⟨-, -, -, -, -, ⟨front, back, houtline, -⟩, hdiagnostics⟩ :=
    generate_initializes_properties hgenerated
  exact ⟨_, hgenerated, hdiagnostics, front, back, houtline⟩

end DelphiUnits

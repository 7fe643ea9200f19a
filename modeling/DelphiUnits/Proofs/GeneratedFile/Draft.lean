import DelphiUnits.GeneratedFile
import DelphiUnits.Proofs.Pascal.Import
import DelphiUnits.Proofs.Pascal.Registry

/-!
# A document as registrations

The stages that draft a unit do nothing to it but register: imports use units, functions are
declared, become routines or the main block, and the initialized properties of classes are pushed
onto constructors. So a document comes down to **one list of registrations**, which does not depend
on what is registered already, and a finished draft is the run of that list on an empty unit.

What the stages say on the way is a list of the same kind: what there is to say about each import,
then about each function. Classes say nothing.

## Main results

* `Draft.addImports_eq`, `Draft.addFunctions_eq`, `Draft.addClasses_eq`: each stage as a run;
* `draftUnit_eq`: a finished draft as the run of its document.
-/

namespace DelphiUnits

open Pascal (CompilationUnit Draft Registration)
open Source (Document)

namespace Pascal

variable {settings : Settings} {file : Path}

/-! ### Imports -/

/-- What an import registers. -/
def Registration.ofImport (settings : Settings) (i : Source.Import) : List Registration :=
  match classifyImport settings i.specifier with
  | .ok (.system name) => [.use name none]
  | .ok .nothing => []
  | .ok (.project name path) => [.use name (some path)]
  | .error _ => []

/-- What there is to say about an import: a system prefix may have no name behind it. -/
def importWarning? (settings : Settings) (i : Source.Import) : Option Diagnostic :=
  match settings.systemPart? i.specifier with
  | some part =>
    if systemName part = "" then
      some ⟨.warning, "imports", "import '" ++ i.specifier ++ "' names no unit and was skipped",
        none⟩
    else none
  | none => none

/-- An import names nothing exactly if there is something to say about it. -/
theorem importWarning?_of_ok {i : Source.Import} {imported : Imported}
    (h : classifyImport settings i.specifier = .ok imported) :
    importWarning? settings i =
      if imported = .nothing then some (Draft.namelessImport i.specifier) else none := by
  obtain ⟨part, hsystem, hname, rfl⟩ | ⟨part, hsystem, hname, rfl⟩ | ⟨hsystem, _, -, -, rfl⟩ :=
    classifyImport_cases h
  · rw [importWarning?, hsystem]
    simp [hname]
  · rw [importWarning?, hsystem]
    simp only [hname, if_true]
    rfl
  · rw [importWarning?, hsystem]
    rfl

namespace Draft

/-- Adding what an import names is registering it, with what there is to say. -/
theorem addImported_eq (d : Draft) {i : Source.Import} {imported : Imported}
    (h : classifyImport settings i.specifier = .ok imported) :
    d.addImported i.specifier imported =
      ⟨d.unit.registerAll (Registration.ofImport settings i),
        d.diagnostics ++ (importWarning? settings i).toList⟩ := by
  rw [importWarning?_of_ok h, Registration.ofImport, h]
  cases imported with
  | system name => simp [addImported, mapUnit, CompilationUnit.register]
  | nothing => simp [addImported, report]
  | project name path => simp [addImported, mapUnit, CompilationUnit.register]

/-- **Imports that are not refused** are a run. -/
theorem addImports_eq (d : Draft) {imports : List Source.Import}
    (h : (d.addImports settings file imports).2 = none) :
    (d.addImports settings file imports).1 =
      ⟨d.unit.registerAll (imports.flatMap (Registration.ofImport settings)),
        d.diagnostics ++ imports.filterMap (importWarning? settings)⟩ := by
  fun_induction addImports settings file d imports with
  | case1 d => simp
  | case2 d i rest imported himported ih =>
      rw [ih h, addImported_eq d himported, List.flatMap_cons, CompilationUnit.registerAll_append,
        List.filterMap_cons]
      cases importWarning? settings i <;> simp
  | case3 d i rest e he => cases h

end Draft

/-! ### Functions -/

/-- What a function registers. -/
def Registration.ofFunction (f : Source.Function) : List Registration :=
  match f.name with
  | none => if f.defaultExport then [.mainBlock f.body] else []
  | some name =>
    (if f.exported then [.declare (.function name)] else []) ++
      [.routine ⟨.function, name⟩ f.parameters f.returnType f.body []]

namespace Draft

/-- A function is added by what it registers. -/
theorem withFunction_eq (u : CompilationUnit) (f : Source.Function) :
    withFunction u f = u.registerAll (Registration.ofFunction f) := by
  rw [withFunction, Registration.ofFunction]
  cases f.name with
  | none => cases f.defaultExport <;> rfl
  | some name => cases f.exported <;> rfl

/-- Registering does not make a library a program, nor a program a library. -/
theorem isProgram_registerAll (u : CompilationUnit) (calls : List Registration) :
    (u.registerAll calls).isProgram = u.isProgram := by
  rw [CompilationUnit.isProgram, CompilationUnit.isProgram, (Keeps.registerAll u calls).kind]

/-- **Functions** are a run. -/
theorem addFunctions_eq (d : Draft) (functions : List Source.Function) :
    d.addFunctions functions =
      ⟨d.unit.registerAll (functions.flatMap Registration.ofFunction),
        d.diagnostics ++ functions.filterMap (functionDiagnostic? d.unit.isProgram)⟩ := by
  induction functions generalizing d with
  | nil => simp [addFunctions]
  | cons f rest ih =>
      rw [addFunctions, List.foldl_cons, ← addFunctions, ih, addFunction, withFunction_eq,
        isProgram_registerAll, List.flatMap_cons, CompilationUnit.registerAll_append,
        List.filterMap_cons]
      cases functionDiagnostic? d.unit.isProgram f <;> simp

end Draft

/-! ### Classes -/

/-- What a property of a class registers. -/
def Registration.ofProperty (className : String) (p : Source.Property) : List Registration :=
  match p.initializer with
  | none => []
  | some initializer =>
    [.routine ⟨.constructor, className⟩ [] none [] [Draft.initialization p.name initializer]]

/-- What a class registers. -/
def Registration.ofClass (c : Source.Class) : List Registration :=
  c.properties.flatMap (ofProperty c.name) ++
    [.declare (.ofClass c.name c.parent (Declaration.membersOf c.properties))]

/-- Steps that each make registrations make them one after the other. -/
theorem CompilationUnit.foldl_registerAll {α : Type} {step : CompilationUnit → α → CompilationUnit}
    {calls : α → List Registration} (h : ∀ u x, step u x = u.registerAll (calls x))
    (u : CompilationUnit) (xs : List α) :
    xs.foldl step u = u.registerAll (xs.flatMap calls) := by
  induction xs generalizing u with
  | nil => rfl
  | cons x rest ih => rw [List.foldl_cons, ih, h, List.flatMap_cons, registerAll_append]

namespace Draft

/-- A property is added by what it registers. -/
theorem withInitializer_eq (className : String) (u : CompilationUnit) (p : Source.Property) :
    withInitializer className u p = u.registerAll (Registration.ofProperty className p) := by
  rw [withInitializer, Registration.ofProperty]
  cases p.initializer <;> rfl

/-- A class is added by what it registers. -/
theorem withClass_eq (u : CompilationUnit) (c : Source.Class) :
    withClass u c = u.registerAll (Registration.ofClass c) := by
  rw [withClass, CompilationUnit.foldl_registerAll (withInitializer_eq c.name),
    Registration.ofClass, CompilationUnit.registerAll_append]
  rfl

/-- **Classes** are a run, with nothing to say. -/
theorem addClasses_eq (d : Draft) (classes : List Source.Class) :
    d.addClasses classes =
      ⟨d.unit.registerAll (classes.flatMap Registration.ofClass), d.diagnostics⟩ := by
  rw [addClasses, mapUnit, CompilationUnit.foldl_registerAll withClass_eq]

end Draft

/-! ### Documents -/

/-- **What a document registers.** -/
def Registration.ofDocument (settings : Settings) (document : Document) : List Registration :=
  document.imports.flatMap (ofImport settings) ++ document.functions.flatMap ofFunction ++
    document.classes.flatMap ofClass

/-- **A document that is not refused** is a run. -/
theorem Draft.addDocument_eq (d : Draft) {document : Document}
    (h : (d.addDocument settings file document).2 = none) :
    (d.addDocument settings file document).1 =
      ⟨d.unit.registerAll (Registration.ofDocument settings document),
        d.diagnostics ++ (document.imports.filterMap (importWarning? settings) ++
          document.functions.filterMap (functionDiagnostic? d.unit.isProgram))⟩ := by
  rw [addDocument] at h ⊢
  rcases hstage : d.addImports settings file document.imports with ⟨d', _ | e⟩
  · have himports := addImports_eq d (congrArg Prod.snd hstage)
    rw [hstage] at himports
    obtain rfl := himports
    simp only [addFunctions_eq, addClasses_eq, isProgram_registerAll, Registration.ofDocument,
      CompilationUnit.registerAll_append, List.append_assoc]
  · rw [hstage] at h
    cases h

end Pascal

/-- The unit that a draft starts from is a program exactly if the main file is asked for. -/
theorem isProgram_empty (request : Request) :
    (CompilationUnit.empty request.unitKind request.name).isProgram = request.isMain := by
  rw [CompilationUnit.isProgram, CompilationUnit.empty, Request.unitKind]
  cases request.isMain <;> rfl

/-- **A finished draft** is the run of its document on an empty unit. What was said is what there
is to say about the imports, then about the functions. -/
theorem draftUnit_eq {settings : Settings} {request : Request} {document : Document}
    (h : (draftUnit settings request document).2 = none) :
    (draftUnit settings request document).1 =
      ⟨(CompilationUnit.empty request.unitKind request.name).registerAll
          (Registration.ofDocument settings document),
        document.imports.filterMap (Pascal.importWarning? settings) ++
          document.functions.filterMap (Draft.functionDiagnostic? request.isMain)⟩ := by
  rw [draftUnit] at h ⊢
  split at h
  · cases h
  · next hentry =>
    rw [if_neg hentry, Draft.addDocument_eq _ h, Draft.empty, isProgram_empty, List.nil_append]

/-- A file is generated exactly if its draft is finished, and from that draft. -/
theorem generate_eq_ok_iff {settings : Settings} {request : Request} {document : Document}
    {g : GeneratedFile} :
    generate settings request document = .ok g ↔
      (draftUnit settings request document).2 = none ∧
        g = .ofDraft settings (draftUnit settings request document).1 := by
  rw [generate]
  rcases draftUnit settings request document with ⟨d, _ | e⟩ <;> simp [eq_comm]

end DelphiUnits

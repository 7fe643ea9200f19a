import DelphiUnits.Proofs.GeneratedFile.Failure
import DelphiUnits.Proofs.GeneratedFile.Registries

/-!
# Where a program starts

The main file of a project has to have a default export, since that is where its program starts.
Whether there is one is looked at first, and a name makes no difference there. The main block comes
later, from the functions one by one: a default export without a name sets it, **the last one
wins**, and a default export with a name becomes a routine like any other function.

So the two can disagree. They agree if there is one default export only and it has no name. If the
main block of a program is missing, there is a default export with a name, and for each of these
there is a warning.

## Main results

* `Pascal.body_unitOf`: the main block of a document;
* `functionWarnings_draftUnit`: the warnings about its functions;
* `exists_defaultExport`: a program that is drafted has a default export;
* `entry_point_of_draft`: what becomes of the default exports in every finished draft.
-/

namespace DelphiUnits

open Source (Document Statement)

namespace Pascal

/-! ### The main block -/

/-- Imports set no main block. -/
theorem mainBlock?_ofImport (settings : Settings) (i : Source.Import) :
    (Registration.ofImport settings i).filterMap Registration.mainBlock? = [] := by
  rw [Registration.ofImport]
  split <;> rfl

/-- A function sets the main block if it is an entry point. -/
theorem mainBlock?_ofFunction (f : Source.Function) :
    (Registration.ofFunction f).filterMap Registration.mainBlock?
      = if f.isEntryPoint then [f.body] else [] := by
  rw [Registration.ofFunction, Source.Function.isEntryPoint]
  cases f.name with
  | none => cases f.defaultExport <;> rfl
  | some name => cases f.exported <;> rfl

/-- Classes set no main block. -/
theorem mainBlock?_ofClass (c : Source.Class) :
    (Registration.ofClass c).filterMap Registration.mainBlock? = [] := by
  have hproperty (p : Source.Property) :
      (Registration.ofProperty c.name p).filterMap Registration.mainBlock? = [] := by
    rw [Registration.ofProperty]
    cases p.initializer <;> rfl
  rw [Registration.ofClass, List.filterMap_append, List.filterMap_flatMap]
  simp [hproperty, Registration.mainBlock?]

/-- **The main block of a document** is the body of its last entry point. -/
theorem body_unitOf (settings : Settings) (request : Request) (document : Document) :
    (unitOf settings request document).body
      = (document.functions.filter (·.isEntryPoint)).getLast?.map (·.body) := by
  have hblocks : (Registration.ofDocument settings document).filterMap Registration.mainBlock?
      = (document.functions.filter (·.isEntryPoint)).map (·.body) := by
    simp only [Registration.ofDocument, List.filterMap_append, List.filterMap_flatMap,
      mainBlock?_ofImport, mainBlock?_ofFunction, mainBlock?_ofClass,
      List.flatMap_eq_nil_iff.mpr fun _ _ => rfl, List.nil_append, List.append_nil]
    induction document.functions with
    | nil => rfl
    | cons f rest ih =>
        rw [List.flatMap_cons, ih, List.filter_cons]
        split <;> rfl
  rw [unitOf, CompilationUnit.body_registerAll, hblocks, List.getLast?_map]
  exact Option.or_none

/-! ### Warnings -/

/-- Whether a diagnostic is a warning about a function. -/
def isFunctionWarning (d : Diagnostic) : Bool :=
  d.isWarning && d.stage == "functions"

/-- The warning about a default export with a name. -/
def namedWarning (name : String) : Diagnostic :=
  ⟨.warning, "functions", "default export '" ++ name ++ "' is named, the program block stays empty",
    none⟩

/-- The names of the default exports that have one. -/
def namedExports (functions : List Source.Function) : List String :=
  (functions.filter (·.defaultExport)).filterMap (·.name)

/-- The warning about a function, if there is one. -/
theorem filter_functionDiagnostic? (isProgram : Bool) (f : Source.Function) :
    (Draft.functionDiagnostic? isProgram f).filter isFunctionWarning
      = if isProgram && f.defaultExport then f.name.map namedWarning else none := by
  rw [Draft.functionDiagnostic?]
  cases f.name with
  | none => cases f.defaultExport <;> cases isProgram <;> rfl
  | some name => cases f.defaultExport <;> cases isProgram <;> rfl

/-- **The warnings about functions**: one for each default export with a name, if they are those of
a program. -/
theorem filter_functionDiagnostics (isProgram : Bool) (functions : List Source.Function) :
    (functions.filterMap (Draft.functionDiagnostic? isProgram)).filter isFunctionWarning
      = if isProgram then (namedExports functions).map namedWarning else [] := by
  rw [List.filter_filterMap]
  simp only [filter_functionDiagnostic?]
  cases isProgram with
  | false => exact List.filterMap_eq_nil_iff.mpr fun _ _ => rfl
  | true =>
      rw [if_pos rfl, namedExports, List.map_filterMap, List.filterMap_filter]
      rfl

/-- No warning about an import is one about a function. -/
theorem filter_importWarnings (settings : Settings) (imports : List Source.Import) :
    (imports.filterMap (importWarning? settings)).filter isFunctionWarning = [] := by
  rw [List.filter_filterMap]
  refine List.filterMap_eq_nil_iff.mpr fun i _ => ?_
  rw [importWarning?]
  split
  · split <;> rfl
  · rfl

end Pascal

open Pascal (isFunctionWarning namedExports namedWarning)

variable {settings : Settings} {request : Request} {document : Document}

/-- The warnings about functions in a finished draft. -/
theorem functionWarnings_draftUnit (h : (draftUnit settings request document).2 = none) :
    (draftUnit settings request document).1.diagnostics.filter isFunctionWarning
      = if request.isMain then (namedExports document.functions).map namedWarning else [] := by
  rw [draftUnit_eq h, List.filter_append, Pascal.filter_importWarnings,
    Pascal.filter_functionDiagnostics, List.nil_append]

/-- **A program that is drafted** has a default export. -/
theorem exists_defaultExport (h : (draftUnit settings request document).2 = none)
    (hmain : request.isMain = true) : ∃ f ∈ document.functions, f.defaultExport = true := by
  by_contra hnone
  have hlacks : LacksEntryPoint request document := by
    refine ⟨hmain, fun f hf => ?_⟩
    rw [Bool.eq_false_iff]
    exact fun hdefault => hnone ⟨f, hf, hdefault⟩
  rw [draftUnit_snd_eq_some_iff.mpr (.missingEntryPoint hlacks)] at h
  cases h

/-- If the main block of a program is missing, there is a warning about one of its functions. -/
theorem exists_warning_of_body_eq_none (h : (draftUnit settings request document).2 = none)
    (hmain : request.isMain = true)
    (hbody : (draftUnit settings request document).1.unit.body = none) :
    ∃ w ∈ (draftUnit settings request document).1.diagnostics, isFunctionWarning w = true := by
  obtain ⟨f, hf, hdefault⟩ := exists_defaultExport h hmain
  rw [unit_draftUnit h, Pascal.body_unitOf, Option.map_eq_none_iff, List.getLast?_eq_none_iff,
    List.filter_eq_nil_iff] at hbody
  -- The default export is no entry point, so it has a name.
  obtain ⟨name, hname⟩ : ∃ name, f.name = some name := by
    cases hname : f.name with
    | none => exact absurd (by rw [Source.Function.isEntryPoint, hname, hdefault]; rfl) (hbody f hf)
    | some name => exact ⟨name, rfl⟩
  have hexport : name ∈ namedExports document.functions :=
    List.mem_filterMap.mpr ⟨f, List.mem_filter.mpr ⟨hf, hdefault⟩, hname⟩
  have hwarning := functionWarnings_draftUnit h
  rw [hmain, if_pos rfl] at hwarning
  have hmem : namedWarning name ∈
      (draftUnit settings request document).1.diagnostics.filter isFunctionWarning := by
    rw [hwarning]
    exact List.mem_map_of_mem hexport
  exact ⟨_, List.mem_filter.mp hmem⟩

/-- The entry points of a document are its default exports without names. -/
theorem filter_isEntryPoint (functions : List Source.Function) :
    functions.filter (·.isEntryPoint)
      = (functions.filter (·.defaultExport)).filter (·.name.isNone) := by
  rw [List.filter_filter]
  rfl

/-- **Where a program starts**, in every finished draft. The main block is the body of the last
default export without a name. If a program has one default export only, it is the one that was
looked for, and two things can be. Without a name it sets the main block, and there is no warning
about a function. With a name it is a routine, the main block is missing, and there is one warning,
which gives the name. So a main block is never missing without a warning, and one that is empty
without a warning is written as such. -/
theorem entry_point_of_draft (h : (draftUnit settings request document).2 = none) :
    let d := (draftUnit settings request document).1
    d.unit.body = (document.functions.filter (·.isEntryPoint)).getLast?.map (·.body) ∧
    (request.isMain = true → ∀ f, document.functions.filter (·.defaultExport) = [f] →
      document.defaultExport? = some f ∧
      (f.name = none → d.unit.body = some f.body ∧ d.diagnostics.filter isFunctionWarning = []) ∧
      (∀ name, f.name = some name → d.unit.body = none ∧
        (∃ r ∈ d.unit.routines, r.kind = .function ∧ r.name = name) ∧
        d.diagnostics.filter isFunctionWarning = [namedWarning name])) ∧
    (request.isMain = true → d.unit.body = none → ∃ w ∈ d.diagnostics, w.isWarning = true) ∧
    ∃ g, generate settings request document = .ok g ∧
      (request.isMain = true → d.unit.body.getD [] = [] →
        (∃ w ∈ g.diagnostics, w.isWarning = true) ∨
          ∃ f ∈ (document.functions.filter (·.isEntryPoint)).getLast?, f.body = []) := by
  intro d
  have hunit : d.unit = Pascal.unitOf settings request document := unit_draftUnit h
  have hbody : d.unit.body =
      (document.functions.filter (·.isEntryPoint)).getLast?.map (·.body) := by
    rw [hunit, Pascal.body_unitOf]
  have hmissing (hmain : request.isMain = true) (hnone : d.unit.body = none) :
      ∃ w ∈ d.diagnostics, w.isWarning = true := by
    obtain ⟨w, hw, hfunction⟩ := exists_warning_of_body_eq_none h hmain hnone
    exact ⟨w, hw, (Bool.and_eq_true_iff.mp hfunction).1⟩
  refine ⟨hbody, fun hmain f hexports => ⟨?_, fun hname => ?_, fun name hname => ?_⟩, hmissing, _,
    generate_eq_ok_iff.mpr ⟨h, rfl⟩, fun hmain hempty => ?_⟩
  · rw [Document.defaultExport?, ← List.head?_filter, hexports]
    rfl
  · constructor
    · rw [hbody, filter_isEntryPoint, hexports, List.filter_cons_of_pos (by simp [hname])]
      rfl
    · rw [functionWarnings_draftUnit h, hmain, namedExports, hexports,
        List.filterMap_cons_none hname]
      rfl
  · refine ⟨?_, ?_, ?_⟩
    · rw [hbody, filter_isEntryPoint, hexports, List.filter_cons_of_neg (by simp [hname])]
      rfl
    · have hf : f ∈ document.functions :=
        List.mem_of_mem_filter (hexports ▸ List.mem_singleton_self f)
      rw [hunit]
      exact Pascal.exists_routine_of_name hf hname
    · rw [functionWarnings_draftUnit h, hmain, namedExports, hexports,
        List.filterMap_cons_some hname]
      rfl
  · cases hlast : (document.functions.filter (·.isEntryPoint)).getLast? with
    | none =>
        obtain ⟨w, hw, hwarning⟩ := hmissing hmain (by rw [hbody, hlast]; rfl)
        exact .inl ⟨w, List.mem_append_left _ hw, hwarning⟩
    | some f =>
        rw [hbody, hlast] at hempty
        exact .inr ⟨f, rfl, hempty⟩

/-- A main file with one default export, with or without a name. -/
def startingDocument (name : Option String) : Document where
  imports := []
  functions := [⟨none, true, false, [], none, []⟩, ⟨name, true, true, [], none, [.returning none]⟩,
    ⟨some "helper", false, false, [], none, []⟩]
  classes := []

/-- The default export of a main file is its main block without a name, and a routine with a warning
if it has one. -/
theorem entry_point_of_startingDocument :
    (draftUnit (.ofRoot ⟨"in"⟩) ⟨"Main", ⟨"main.ts"⟩, true⟩ (startingDocument none)).2 = none ∧
    (draftUnit (.ofRoot ⟨"in"⟩) ⟨"Main", ⟨"main.ts"⟩, true⟩ (startingDocument none)).1.unit.body
      = some [.returning none] ∧
    (draftUnit (.ofRoot ⟨"in"⟩) ⟨"Main", ⟨"main.ts"⟩, true⟩ (startingDocument "run")).2 = none ∧
    (draftUnit (.ofRoot ⟨"in"⟩) ⟨"Main", ⟨"main.ts"⟩, true⟩ (startingDocument "run")).1.unit.body
      = none ∧
    (draftUnit (.ofRoot ⟨"in"⟩) ⟨"Main", ⟨"main.ts"⟩, true⟩
        (startingDocument "run")).1.diagnostics.filter isFunctionWarning
      = [⟨.warning, "functions", "default export 'run' is named, the program block stays empty",
        none⟩] := by
  have hunnamed : (draftUnit (.ofRoot ⟨"in"⟩) ⟨"Main", ⟨"main.ts"⟩, true⟩
      (startingDocument none)).2 = none := rfl
  have hnamed : (draftUnit (.ofRoot ⟨"in"⟩) ⟨"Main", ⟨"main.ts"⟩, true⟩
      (startingDocument "run")).2 = none := rfl
  obtain ⟨-, hblock, -⟩ := (entry_point_of_draft hunnamed).2.1 rfl _ rfl
  obtain ⟨-, -, hroutine⟩ := (entry_point_of_draft hnamed).2.1 rfl _ rfl
  exact ⟨hunnamed, (hblock rfl).1, hnamed, (hroutine "run" rfl).1, (hroutine "run" rfl).2.2⟩

end DelphiUnits

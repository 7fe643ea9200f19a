import DelphiUnits.Proofs.GeneratedFile.Constructors

/-!
# What the functions and classes of a document register

Functions and classes share two lists. In the list of declarations they meet: exported functions and
classes go by their names in normal form there, a class by the class it extends as well, and the
first one of a key keeps it. In the list of routines they do not: functions and constructors are of
different kinds, so the functions come first, each name once as it is written, and the constructors
behind them. Nothing is ever pushed onto a function, so its body is the one in the document.

Since names as they are written are told apart more finely than their normal forms, every function
that is declared has a routine, although not the other way round.

## Main results

* `routines_unitOf`: the routines of a document, functions and constructors;
* `types_unitOf`: its declarations;
* `hasParameters_mapParameters`: the parameters of a routine;
* `registries_of_draft`: all of this for every finished draft.
-/

namespace DelphiUnits

open Source (Document Statement)
open Text (normalizeIdentifier)

namespace Pascal

variable {settings : Settings} {request : Request} {document : Document}

/-! ### Keys -/

/-- Keys may be replaced by others that tell the same items apart. -/
theorem addAll_comp {α κ κ' : Type} [DecidableEq κ] [DecidableEq κ'] {f : κ → κ'}
    (hf : Function.Injective f) (key : α → κ) (ys : List α) :
    addAll (fun y => f (key y)) [] ys = addAll key [] ys := by
  simp only [addAll_nil_eq_eraseDupsBy, hf.eq_iff]

/-- Items that are their own keys are kept where they come first. -/
theorem addAll_id (names : List String) : addAll id [] names = names.eraseDups :=
  addAll_nil_eq_eraseDupsBy id names

/-! ### Functions -/

/-- The functions with a name, each under its name. -/
def namedFunctions (functions : List Source.Function) : List (String × Source.Function) :=
  functions.filterMap fun f => f.name.map fun name => (name, f)

/-- **The routine of a function** under its name: the types are those of Pascal, the body is the one
of the function. -/
def functionRoutine (named : String × Source.Function) : Routine :=
  ⟨.function, named.1, Routine.mapParameters named.2.parameters,
    named.2.returnType.map mapTypeName, named.2.body⟩

/-- A function that has a name is among those with names. -/
theorem mem_namedFunctions_iff {functions : List Source.Function} {name : String}
    {f : Source.Function} :
    (name, f) ∈ namedFunctions functions ↔ f ∈ functions ∧ f.name = some name := by
  simp only [namedFunctions, List.mem_filterMap, Option.map_eq_some_iff, Prod.mk.injEq]
  constructor
  · rintro ⟨_, hf, _, hname, rfl, rfl⟩
    exact ⟨hf, hname⟩
  · rintro ⟨hf, hname⟩
    exact ⟨f, hf, name, hname, rfl, rfl⟩

/-- A function adds its routine if it has a name. -/
theorem routine?_ofFunction_eq (f : Source.Function) :
    (Registration.ofFunction f).filterMap Registration.routine?
      = (f.name.map fun name => functionRoutine (name, f)).toList := by
  rw [Registration.ofFunction]
  cases f.name with
  | none => cases f.defaultExport <;> rfl
  | some name => cases f.exported <;> rfl

/-- Nothing is pushed onto a function. -/
theorem pushedTo_function (settings : Settings) (document : Document) (name : String) :
    (Registration.ofDocument settings document).flatMap (·.pushedTo ⟨.function, name⟩) = [] := by
  have hclass (c : Source.Class) :
      (Registration.ofClass c).flatMap (·.pushedTo ⟨.function, name⟩) = [] := by
    have hproperty : ∀ p ∈ c.properties,
        (Registration.ofProperty c.name p).flatMap (·.pushedTo ⟨.function, name⟩) = [] := by
      intro p _
      rw [Registration.ofProperty]
      cases p.initializer with
      | none => rfl
      | some initializer => simp [Registration.pushedTo]
    rw [Registration.ofClass, List.flatMap_append, List.flatMap_assoc,
      List.flatMap_eq_nil_iff.mpr hproperty]
    rfl
  simp only [Registration.ofDocument, List.flatMap_append, List.flatMap_assoc, pushedTo_ofImport,
    pushedTo_ofFunction, hclass, List.flatMap_eq_nil_iff.mpr fun _ _ => rfl, List.append_nil]

/-! ### Routines -/

/-- The name of the class of each initialized property, in the order of the document. -/
def initializedNames (classes : List Source.Class) : List String :=
  classes.flatMap fun c => c.properties.filterMap fun p => p.initializer.map fun _ => c.name

/-- **The constructor of a name**: it assigns what all classes with that name initialize. -/
def constructorRoutine (classes : List Source.Class) (name : String) : Routine :=
  ⟨.constructor, name, [], none, constructorBody classes name⟩

/-- **The routines that a document adds**: one for each function with a name, then one for each
initialized property. -/
theorem routine?_ofDocument (settings : Settings) (document : Document) :
    (Registration.ofDocument settings document).filterMap Registration.routine?
      = (namedFunctions document.functions).map functionRoutine ++
        (initializedNames document.classes).map emptyConstructor := by
  have hfunctions : document.functions.flatMap
        (fun f => (f.name.map fun name => functionRoutine (name, f)).toList)
      = (namedFunctions document.functions).map functionRoutine := by
    rw [namedFunctions, List.map_filterMap, List.filterMap_eq_flatMap_toList]
    simp only [Option.map_map]
    rfl
  have hclasses : document.classes.flatMap
        (fun c => (initializations c).map fun _ => emptyConstructor c.name)
      = (initializedNames document.classes).map emptyConstructor := by
    rw [initializedNames, List.map_flatMap]
    refine List.flatMap_congr fun c _ => ?_
    rw [initializations, List.map_filterMap, List.map_filterMap]
    simp only [Option.map_map]
    rfl
  simp only [Registration.ofDocument, List.filterMap_append, List.filterMap_flatMap,
    routine?_ofImport, routine?_ofFunction_eq, routine?_ofClass, hfunctions, hclasses,
    List.flatMap_eq_nil_iff.mpr fun _ _ => rfl, List.nil_append]

/-- **The routines of a document**: its functions, each name once, then its constructors, each name
once. -/
theorem routines_unitOf (settings : Settings) (request : Request) (document : Document) :
    (unitOf settings request document).routines
      = (addAll Prod.fst [] (namedFunctions document.functions)).map functionRoutine ++
        (initializedNames document.classes).eraseDups.map
          (constructorRoutine document.classes) := by
  -- A function and a constructor never have the same key, since they are of different kinds.
  have hkinds : ∀ r ∈ (initializedNames document.classes).map emptyConstructor,
      r.key ∉ (addAll Routine.key [] ((namedFunctions document.functions).map
        functionRoutine)).map Routine.key := by
    intro r hr hmem
    obtain ⟨name, -, rfl⟩ := List.mem_map.mp hr
    rw [mem_map_addAll_iff, List.map_map] at hmem
    obtain ⟨named, -, hkey⟩ := List.mem_map.mp hmem
    have hkind : RoutineKind.function = .constructor := congrArg Routine.Key.kind hkey
    cases hkind
  have hfunctions : addAll Routine.key [] ((namedFunctions document.functions).map functionRoutine)
      = (addAll Prod.fst [] (namedFunctions document.functions)).map functionRoutine := by
    rw [addAll_map]
    have hinjective : Function.Injective (Routine.Key.mk .function) := fun _ _ h =>
      congrArg Routine.Key.name h
    exact congrArg _ (addAll_comp hinjective Prod.fst _)
  have hconstructors : addAll Routine.key [] ((initializedNames document.classes).map
      emptyConstructor) = (initializedNames document.classes).eraseDups.map emptyConstructor := by
    rw [addAll_map, ← addAll_id]
    have hinjective : Function.Injective (Routine.Key.mk .constructor) := fun _ _ h =>
      congrArg Routine.Key.name h
    exact congrArg _ (addAll_comp hinjective id _)
  have happend (fs cs : List Routine) :
      addAll Routine.key [] (fs ++ cs) = addAll Routine.key (addAll Routine.key [] fs) cs :=
    List.foldl_append
  rw [unitOf, CompilationUnit.routines_registerAll, routine?_ofDocument, happend,
    addAll_of_not_mem hkinds, hfunctions, hconstructors, List.map_append, List.map_map,
    List.map_map]
  congr 1
  · refine List.map_congr_left fun named _ => ?_
    change (functionRoutine named).grow ((Registration.ofDocument settings document).flatMap
      (·.pushedTo ⟨.function, named.1⟩)) = _
    rw [pushedTo_function, Routine.grow_nil]
  · refine List.map_congr_left fun name _ => ?_
    change (emptyConstructor name).grow ((Registration.ofDocument settings document).flatMap
      (·.pushedTo ⟨.constructor, name⟩)) = _
    rw [pushedTo_ofDocument]
    rfl

/-- The functions among the routines of a document. -/
theorem filter_function_routines (settings : Settings) (request : Request) (document : Document) :
    (unitOf settings request document).routines.filter (·.kind = .function)
      = (addAll Prod.fst [] (namedFunctions document.functions)).map functionRoutine := by
  rw [routines_unitOf, List.filter_append, List.filter_eq_self.mpr, List.filter_eq_nil_iff.mpr,
    List.append_nil]
  · intro r hr
    obtain ⟨name, -, rfl⟩ := List.mem_map.mp hr
    exact Bool.false_ne_true
  · intro r hr
    obtain ⟨named, -, rfl⟩ := List.mem_map.mp hr
    rfl

/-- The names of the functions among the routines. -/
theorem function_names_eq (settings : Settings) (request : Request) (document : Document) :
    ((unitOf settings request document).routines.filter (·.kind = .function)).map Routine.name
      = (addAll Prod.fst [] (namedFunctions document.functions)).map Prod.fst := by
  rw [filter_function_routines, List.map_map]
  rfl

/-- Every name of a function is the name of a routine of a function, and there are no others. -/
theorem mem_function_names_iff {name : String} :
    name ∈ ((unitOf settings request document).routines.filter (·.kind = .function)).map
        Routine.name ↔
      ∃ f ∈ document.functions, f.name = some name := by
  rw [function_names_eq, mem_map_addAll_iff, List.mem_map]
  constructor
  · rintro ⟨⟨_, f⟩, hf, rfl⟩
    exact ⟨f, mem_namedFunctions_iff.mp hf⟩
  · rintro ⟨f, hf⟩
    exact ⟨(name, f), mem_namedFunctions_iff.mpr hf, rfl⟩

/-- A function with a name has a routine. -/
theorem exists_routine_of_name {f : Source.Function} {name : String} (hf : f ∈ document.functions)
    (hname : f.name = some name) :
    ∃ r ∈ (unitOf settings request document).routines, r.kind = .function ∧ r.name = name := by
  obtain ⟨r, hr, hr'⟩ := List.mem_map.mp (mem_function_names_iff.mpr ⟨f, hf, hname⟩)
  obtain ⟨hr, hkind⟩ := List.mem_filter.mp hr
  exact ⟨r, hr, of_decide_eq_true hkind, hr'⟩

/-! ### Declarations -/

/-- **The declarations of a document**: its exported functions, then its classes, the first one of
each key. -/
theorem types_unitOf (settings : Settings) (request : Request) (document : Document) :
    (unitOf settings request document).types
      = addAll Declaration.key [] (document.functions.filterMap functionDeclaration? ++
        document.classes.map classDeclaration) := by
  rw [unitOf, CompilationUnit.types_registerAll, declared?_ofDocument]
  rfl

/-- A declared function is an exported one with a name. -/
theorem exists_function_of_mem_types {d : Declaration}
    (hd : d ∈ (unitOf settings request document).types) (hshape : d.shape = .function) :
    ∃ f ∈ document.functions, ∃ name, f.name = some name ∧ d.name = normalizeIdentifier name := by
  rw [types_unitOf] at hd
  rcases List.mem_append.mp (mem_of_mem_addAll hd) with hfunction | hclass
  · obtain ⟨f, hf, hdeclared⟩ := List.mem_filterMap.mp hfunction
    obtain ⟨-, name, hname, rfl⟩ := functionDeclaration?_eq_some_iff.mp hdeclared
    exact ⟨f, hf, name, hname, rfl⟩
  · obtain ⟨c, -, rfl⟩ := List.mem_map.mp hclass
    cases hshape

/-! ### Parameters -/

/-- A map **has the parameters** of a function with their types in Pascal. Of parameters with the
same name the first one decides the place, the last one the type. -/
structure HasParameters (parameters : List Source.Parameter)
    (m : OrderedMap String (Option String)) : Prop where
  /-- The names are in the order in which they come first. -/
  names : m.keys = (parameters.map Source.Parameter.name).eraseDups
  /-- The types are those of the last parameters with these names. -/
  types : ∀ name type, (name, type) ∈ m ↔ ∃ before p after, parameters = before ++ p :: after ∧
    p.name = name ∧ name ∉ after.map Source.Parameter.name ∧ type = p.type.map mapTypeName

/-- The keys of a map after several insertions, each once. -/
theorem keys_insertMany {ν : Type} (m : OrderedMap String ν) (pairs : List (String × ν)) :
    (m.insertMany pairs).keys = addAll id m.keys (pairs.map Prod.fst) := by
  induction pairs generalizing m with
  | nil => rfl
  | cons pair rest ih =>
      have hinsert : (m.insert pair.1 pair.2).keys = addNew id m.keys pair.1 := by
        rw [OrderedMap.keys_insert, addNew, List.map_id, id]
      rw [OrderedMap.insertMany, List.foldl_cons, ← OrderedMap.insertMany, ih, hinsert]
      rfl

/-- **The parameters of a routine.** -/
theorem hasParameters_mapParameters (parameters : List Source.Parameter) :
    HasParameters parameters (Routine.mapParameters parameters) where
  names := by
    rw [Routine.mapParameters, keys_insertMany, ← addAll_id, List.map_map]
    rfl
  types name type := OrderedMap.mem_insertMany_map_iff

end Pascal

open Pascal (Declaration HasParameters Routine classDeclaration functionDeclaration? functionRoutine
  namedFunctions unitOf)

/-- **What the functions and classes of a document register**, in every finished draft. The
declarations are the exported functions and then the classes, without those that repeat a key. The
routines are the functions with names, without those that repeat a name, each with its body as it is
and its types in Pascal, and behind them constructors only. So every declared function has a routine
with its name, up to normal form, and every name of a function is the name of one routine of a
function. -/
theorem registries_of_draft {settings : Settings} {request : Request} {document : Document}
    (h : (draftUnit settings request document).2 = none) :
    let u := (draftUnit settings request document).1.unit
    u.types = (document.functions.filterMap functionDeclaration? ++
      document.classes.map classDeclaration).eraseDupsBy (fun d e => d.key = e.key) ∧
    (∃ constructors, u.routines =
        ((namedFunctions document.functions).eraseDupsBy fun a b => a.1 = b.1).map
          functionRoutine ++ constructors ∧
      ∀ r ∈ constructors, r.kind = .constructor) ∧
    (∀ f ∈ document.functions, HasParameters f.parameters (Routine.mapParameters f.parameters)) ∧
    (∀ d ∈ u.types, d.shape = .function →
      ∃ r ∈ u.routines, r.kind = .function ∧ normalizeIdentifier r.name = d.name) ∧
    (∀ f ∈ document.functions, ∀ name, f.name = some name →
      ((u.routines.filter (·.kind = .function)).map Routine.name).count name = 1) := by
  intro u
  have hu : u = unitOf settings request document := unit_draftUnit h
  rw [hu]
  refine ⟨?_, ?_, fun f _ => Pascal.hasParameters_mapParameters f.parameters, ?_, ?_⟩
  · rw [Pascal.types_unitOf, Pascal.addAll_nil_eq_eraseDupsBy]
  · refine ⟨(Pascal.initializedNames document.classes).eraseDups.map
      (Pascal.constructorRoutine document.classes), ?_, fun r hr => ?_⟩
    · rw [Pascal.routines_unitOf, Pascal.addAll_nil_eq_eraseDupsBy]
    · obtain ⟨name, -, rfl⟩ := List.mem_map.mp hr
      rfl
  · intro d hd hshape
    obtain ⟨f, hf, name, hname, hd⟩ := Pascal.exists_function_of_mem_types hd hshape
    obtain ⟨r, hr, hkind, rfl⟩ := Pascal.exists_routine_of_name hf hname
    exact ⟨r, hr, hkind, hd.symm⟩
  · intro f hf name hname
    refine List.count_eq_one_of_mem ?_ (Pascal.mem_function_names_iff.mpr ⟨f, hf, hname⟩)
    rw [Pascal.function_names_eq]
    exact Pascal.nodup_map_addAll Prod.fst _

/-- A document in which names clash: functions that differ in letter case, a function that is there
twice, and classes with the names of functions. -/
def clashingDocument : Document where
  imports := []
  functions := [⟨some "run", true, false, [⟨"limit", some "number"⟩], none, [.returning none]⟩,
    ⟨none, false, true, [], none, []⟩,
    ⟨some "Run", true, false, [], none, []⟩,
    ⟨some "run", true, false, [], none, []⟩,
    ⟨some "point", true, false, [], some "string", []⟩]
  classes := [⟨"Point", none, [⟨"x", none, some "1", none, false⟩]⟩,
    ⟨"run", some "Point", []⟩]

/-- The second variant of a function is not declared but has a routine, and its repetition has
neither. The first class loses its declaration to a function, the second one has a parent and
keeps it. -/
theorem registries_of_clashingDocument :
    (draftUnit (.ofRoot ⟨"in"⟩) ⟨"Unit", ⟨"Unit.ts"⟩, false⟩ clashingDocument).2 = none ∧
    (draftUnit (.ofRoot ⟨"in"⟩) ⟨"Unit", ⟨"Unit.ts"⟩, false⟩ clashingDocument).1.unit.types.map
        Declaration.key = [⟨"Run", none⟩, ⟨"Point", none⟩, ⟨"Run", some "Point"⟩] ∧
    (∃ constructors, (∀ r ∈ constructors, r.kind = .constructor) ∧
      (draftUnit (.ofRoot ⟨"in"⟩) ⟨"Unit", ⟨"Unit.ts"⟩, false⟩ clashingDocument).1.unit.routines =
        [⟨.function, "run", [("limit", some "Float")], none, [.returning none]⟩,
          ⟨.function, "Run", [], none, []⟩, ⟨.function, "point", [], some "String", []⟩] ++
        constructors) := by
  have hdraft : (draftUnit (.ofRoot ⟨"in"⟩) ⟨"Unit", ⟨"Unit.ts"⟩, false⟩
      clashingDocument).2 = none := rfl
  obtain ⟨htypes, ⟨constructors, hroutines, hkinds⟩, -⟩ := registries_of_draft hdraft
  refine ⟨hdraft, ?_, constructors, hkinds, hroutines⟩
  rw [htypes]
  decide

end DelphiUnits

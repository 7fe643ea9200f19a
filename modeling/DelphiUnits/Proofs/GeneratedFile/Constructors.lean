import DelphiUnits.Proofs.GeneratedFile.Draft
import DelphiUnits.Proofs.OrderedMap
import DelphiUnits.Proofs.Pascal.Registered

/-!
# Classes and their constructors

A class with initialized properties is declared, and its constructor assigns these properties. The
two are kept in different lists: declarations go by their name in normal form and the class they
extend, constructors by the name of the class as it is written. A declaration that comes second
under its key is dropped, but its initialized properties have gone into the constructor by then.

So a constructor has the initialized properties of **all classes with its name**, in the order of
the document. It fits its class if there is only one class behind it. The two lists come apart where
classes share a name, or where an exported function has taken the place of a class.

## Main results

* `mem_routines_constructor_iff`: which constructors there are, and what they assign;
* `mem_types_class_iff`: which classes are declared;
* `constructors_of_draft`: these two, with the exact condition for constructors to fit their
  classes;
* `constructors_do_not_fit`: the condition is needed.
-/

namespace DelphiUnits

open Source (Document Statement)
open Text (normalizeIdentifier)

namespace Pascal

variable {settings : Settings} {request : Request} {document : Document} {name : String}

/-- **The unit of a document**, as far as it is not refused: the run of its registrations. -/
def unitOf (settings : Settings) (request : Request) (document : Document) : CompilationUnit :=
  (CompilationUnit.empty request.unitKind request.name).registerAll
    (Registration.ofDocument settings document)

/-! ### What is assigned -/

/-- The assignments that **initialize the properties** of a class, in their order. -/
def initializations (c : Source.Class) : List Statement :=
  c.properties.filterMap fun p => p.initializer.map (Draft.initialization p.name)

/-- The assignments of all classes with a name. -/
def constructorBody (classes : List Source.Class) (name : String) : List Statement :=
  (classes.filter (·.name = name)).flatMap initializations

/-- An assignment of a class initializes one of its properties. -/
theorem mem_initializations_iff {c : Source.Class} {s : Statement} :
    s ∈ initializations c ↔ ∃ p ∈ c.properties, ∃ initializer,
      p.initializer = some initializer ∧ s = Draft.initialization p.name initializer := by
  simp only [initializations, List.mem_filterMap, Option.map_eq_some_iff]
  simp only [eq_comm]

/-- An assignment of a constructor initializes a property of a class with its name. -/
theorem mem_constructorBody_iff {classes : List Source.Class} {s : Statement} :
    s ∈ constructorBody classes name ↔
      ∃ c ∈ classes, c.name = name ∧ s ∈ initializations c := by
  simp only [constructorBody, List.mem_flatMap, List.mem_filter, decide_eq_true_eq, and_assoc]

/-- A class has no assignments exactly if none of its properties is initialized. -/
theorem initializations_eq_nil_iff {c : Source.Class} :
    initializations c = [] ↔ ∀ p ∈ c.properties, p.initializer = none := by
  simp [initializations]

/-- What is initialized can be told from the assignment. -/
theorem eq_of_initialization_eq {property initializer field : String} {value : Source.Expression}
    (h : Draft.initialization property initializer
      = .evaluate (.assign (.thisMember field) value)) : property = field := by
  simp only [Draft.initialization, Source.Expression.assign, Source.Expression.thisMember,
    Statement.evaluate.injEq, Source.Expression.binary.injEq, Source.Expression.access.injEq] at h
  exact h.1.2.1

/-! ### Constructors -/

/-- What a class pushes onto a constructor. -/
theorem pushedTo_ofClass (c : Source.Class) (name : String) :
    (Registration.ofClass c).flatMap (·.pushedTo ⟨.constructor, name⟩)
      = if c.name = name then initializations c else [] := by
  have hproperty (p : Source.Property) :
      (Registration.ofProperty c.name p).flatMap (·.pushedTo ⟨.constructor, name⟩)
        = if c.name = name then (p.initializer.map (Draft.initialization p.name)).toList else [] := by
    rw [Registration.ofProperty]
    cases p.initializer with
    | none => simp
    | some initializer => simp [Registration.pushedTo, eq_comm]
  rw [Registration.ofClass, List.flatMap_append, List.flatMap_assoc]
  simp only [hproperty, initializations]
  split
  · simp [Registration.pushedTo, List.filterMap_eq_flatMap_toList]
  · simp [Registration.pushedTo]

/-- Imports push nothing onto routines. -/
theorem pushedTo_ofImport (i : Source.Import) (key : Routine.Key) :
    (Registration.ofImport settings i).flatMap (·.pushedTo key) = [] := by
  rw [Registration.ofImport]
  split <;> rfl

/-- Functions push nothing onto routines. -/
theorem pushedTo_ofFunction (f : Source.Function) (key : Routine.Key) :
    (Registration.ofFunction f).flatMap (·.pushedTo key) = [] := by
  rw [Registration.ofFunction]
  cases f.name with
  | none => cases f.defaultExport <;> rfl
  | some n => cases f.exported <;> simp [Registration.pushedTo]

/-- **What a document pushes onto a constructor**: the assignments of all classes with its name. -/
theorem pushedTo_ofDocument (settings : Settings) (document : Document) (name : String) :
    (Registration.ofDocument settings document).flatMap (·.pushedTo ⟨.constructor, name⟩)
      = constructorBody document.classes name := by
  have himports : (document.imports.flatMap (Registration.ofImport settings)).flatMap
      (·.pushedTo ⟨.constructor, name⟩) = [] := by
    rw [List.flatMap_assoc]
    exact List.flatMap_eq_nil_iff.mpr fun i _ => pushedTo_ofImport i _
  have hfunctions : (document.functions.flatMap Registration.ofFunction).flatMap
      (·.pushedTo ⟨.constructor, name⟩) = [] := by
    rw [List.flatMap_assoc]
    exact List.flatMap_eq_nil_iff.mpr fun f _ => pushedTo_ofFunction f _
  rw [Registration.ofDocument, List.flatMap_append, List.flatMap_append, himports, hfunctions,
    List.nil_append, List.nil_append, List.flatMap_assoc, constructorBody]
  simp only [pushedTo_ofClass]
  induction document.classes with
  | nil => rfl
  | cons c rest ih =>
      by_cases hname : c.name = name
      · simp [hname, ih]
      · simp [hname, ih]

/-- A constructor before anything is pushed onto it. -/
def emptyConstructor (name : String) : Routine :=
  ⟨.constructor, name, [], none, []⟩

/-- Imports add no routines. -/
theorem routine?_ofImport (i : Source.Import) :
    (Registration.ofImport settings i).filterMap Registration.routine? = [] := by
  rw [Registration.ofImport]
  split <;> rfl

/-- Functions add no constructors. -/
theorem routine?_ofFunction (f : Source.Function) :
    ∀ r ∈ (Registration.ofFunction f).filterMap Registration.routine?, r.kind = .function := by
  rw [Registration.ofFunction]
  cases f.name with
  | none => cases f.defaultExport <;> simp [Registration.routine?]
  | some n => cases f.exported <;> simp [Registration.routine?, Routine.ofSource]

/-- A class adds its constructor once for each initialized property. -/
theorem routine?_ofClass (c : Source.Class) :
    (Registration.ofClass c).filterMap Registration.routine?
      = (initializations c).map fun _ => emptyConstructor c.name := by
  have hproperty (p : Source.Property) :
      (Registration.ofProperty c.name p).filterMap Registration.routine?
        = (p.initializer.map fun _ => emptyConstructor c.name).toList := by
    rw [Registration.ofProperty]
    cases p.initializer <;> rfl
  rw [Registration.ofClass, List.filterMap_append, List.filterMap_flatMap, initializations,
    List.map_filterMap, List.filterMap_eq_flatMap_toList (l := c.properties)]
  simp [hproperty, Registration.routine?, Function.comp_def]

/-- **The constructors that a document adds** are those of its classes with initialized
properties. -/
theorem mem_routine?_ofDocument_iff (settings : Settings) (document : Document) {r : Routine} :
    r ∈ (Registration.ofDocument settings document).filterMap Registration.routine? ∧
        r.kind = .constructor ↔
      ∃ c ∈ document.classes, initializations c ≠ [] ∧ r = emptyConstructor c.name := by
  have hclasses : r ∈ (document.classes.flatMap Registration.ofClass).filterMap
        Registration.routine? ↔
      ∃ c ∈ document.classes, initializations c ≠ [] ∧ r = emptyConstructor c.name := by
    have hassigns (c : Source.Class) : (∃ s, s ∈ initializations c) ↔ initializations c ≠ [] :=
      ⟨fun ⟨_, hs⟩ => List.ne_nil_of_mem hs, List.exists_mem_of_ne_nil _⟩
    rw [List.filterMap_flatMap, List.mem_flatMap]
    simp only [routine?_ofClass, List.mem_map, exists_and_right, hassigns, eq_comm]
  rw [Registration.ofDocument, List.filterMap_append, List.filterMap_append, List.mem_append,
    List.mem_append, hclasses]
  constructor
  · rintro ⟨(himports | hfunctions) | hclass, hkind⟩
    · rw [List.filterMap_flatMap] at himports
      obtain ⟨i, -, hi⟩ := List.mem_flatMap.mp himports
      rw [routine?_ofImport] at hi
      cases hi
    · rw [List.filterMap_flatMap] at hfunctions
      obtain ⟨f, -, hf⟩ := List.mem_flatMap.mp hfunctions
      rw [routine?_ofFunction f r hf] at hkind
      cases hkind
    · exact hclass
  · rintro ⟨c, hc, hassigns, rfl⟩
    exact ⟨.inr ⟨c, hc, hassigns, rfl⟩, rfl⟩

/-- There is something for a constructor to assign exactly if a class with its name has an
initialized property. -/
theorem constructorBody_ne_nil_iff {classes : List Source.Class} :
    constructorBody classes name ≠ [] ↔ ∃ c ∈ classes, c.name = name ∧ initializations c ≠ [] := by
  rw [constructorBody, Ne, List.flatMap_eq_nil_iff]
  simp only [List.mem_filter, decide_eq_true_eq, not_forall, and_imp, exists_prop]

/-- **The constructors of a document**: one for each name of a class with initialized properties,
with the assignments of all classes of that name. -/
theorem mem_routines_constructor_iff (settings : Settings) (request : Request) (document : Document)
    {r : Routine} :
    r ∈ (unitOf settings request document).routines ∧ r.kind = .constructor ↔
      ∃ name, constructorBody document.classes name ≠ [] ∧
        r = ⟨.constructor, name, [], none, constructorBody document.classes name⟩ := by
  have hgrow (name : String) : (emptyConstructor name).grow
      ((Registration.ofDocument settings document).flatMap (·.pushedTo (emptyConstructor name).key))
        = ⟨.constructor, name, [], none, constructorBody document.classes name⟩ := by
    rw [← pushedTo_ofDocument settings document name]
    rfl
  rw [unitOf, CompilationUnit.routines_registerAll]
  constructor
  · rintro ⟨hr, hkind⟩
    obtain ⟨added, hadded, rfl⟩ := List.mem_map.mp hr
    obtain ⟨c, hc, hassigns, rfl⟩ :=
      (mem_routine?_ofDocument_iff settings document).mp ⟨mem_of_mem_addAll hadded, hkind⟩
    exact ⟨c.name, constructorBody_ne_nil_iff.mpr ⟨c, hc, rfl, hassigns⟩, hgrow c.name⟩
  · rintro ⟨name, hassigns, rfl⟩
    obtain ⟨c, hc, rfl, hassigns'⟩ := constructorBody_ne_nil_iff.mp hassigns
    have hmem := (mem_routine?_ofDocument_iff settings document).mpr ⟨c, hc, hassigns', rfl⟩
    have hkey : (emptyConstructor c.name).key ∈ (addAll Routine.key [] ((Registration.ofDocument
        settings document).filterMap Registration.routine?)).map Routine.key :=
      mem_map_addAll_iff.mpr (List.mem_map_of_mem hmem.1)
    -- All constructors that are added under a name are the same.
    obtain ⟨r, hr, hsame⟩ := List.mem_map.mp hkey
    obtain ⟨c', -, -, rfl⟩ := (mem_routine?_ofDocument_iff settings document).mp
      ⟨mem_of_mem_addAll hr, congrArg Routine.Key.kind hsame⟩
    have hname : c'.name = c.name := congrArg Routine.Key.name hsame
    rw [hname] at hr
    refine ⟨?_, rfl⟩
    rw [← hgrow c.name]
    exact List.mem_map_of_mem hr

/-! ### Declared classes -/

/-- The declaration of a class, with its name in normal form. -/
def classDeclaration (c : Source.Class) : Declaration :=
  (Declaration.ofClass c.name c.parent (Declaration.membersOf c.properties)).normalize

/-- The declaration of a function that is exported under a name. -/
def functionDeclaration? (f : Source.Function) : Option Declaration :=
  if f.exported then f.name.map fun name => (Declaration.function name).normalize else none

/-- A class **is kept** if its declaration is the first one under its key: no exported function and
no class before it have the name in normal form and the parent that it has. Functions have no
parent. -/
structure IsKept (document : Document) (before : List Source.Class) (c : Source.Class)
    (after : List Source.Class) : Prop where
  /-- Where the class stands in its document. -/
  classes : document.classes = before ++ c :: after
  /-- No exported function has the name of the class, if the class has no parent. -/
  noFunction : ∀ f ∈ document.functions, f.exported = true → ∀ name, f.name = some name →
    c.parent = none → normalizeIdentifier name ≠ normalizeIdentifier c.name
  /-- No class before it has its name and its parent. -/
  noClass : ∀ b ∈ before, b.parent = c.parent →
    normalizeIdentifier b.name ≠ normalizeIdentifier c.name

/-- What a document declares: exported functions, then classes. -/
theorem declared?_ofDocument (settings : Settings) (document : Document) :
    (Registration.ofDocument settings document).filterMap Registration.declared?
      = document.functions.filterMap functionDeclaration? ++
        document.classes.map classDeclaration := by
  have himport (i : Source.Import) :
      (Registration.ofImport settings i).filterMap Registration.declared? = [] := by
    rw [Registration.ofImport]
    split <;> rfl
  have hfunction (f : Source.Function) :
      (Registration.ofFunction f).filterMap Registration.declared?
        = (functionDeclaration? f).toList := by
    rw [Registration.ofFunction, functionDeclaration?]
    cases f.name with
    | none => cases f.defaultExport <;> cases f.exported <;> rfl
    | some n => cases f.exported <;> rfl
  have hclass (c : Source.Class) :
      (Registration.ofClass c).filterMap Registration.declared? = [classDeclaration c] := by
    have hproperty : ∀ p ∈ c.properties,
        (Registration.ofProperty c.name p).filterMap Registration.declared? = [] := by
      intro p _
      rw [Registration.ofProperty]
      cases p.initializer <;> rfl
    rw [Registration.ofClass, List.filterMap_append, List.filterMap_flatMap,
      List.flatMap_eq_nil_iff.mpr hproperty]
    rfl
  simp only [Registration.ofDocument, List.filterMap_append, List.filterMap_flatMap, himport,
    hfunction, hclass]
  rw [List.flatMap_eq_nil_iff.mpr fun _ _ => rfl, List.nil_append, ← List.filterMap_eq_flatMap_toList,
    ← List.map_eq_flatMap]

/-- What an exported function declares has its name in normal form, and is no class. -/
theorem functionDeclaration?_eq_some_iff {f : Source.Function} {d : Declaration} :
    functionDeclaration? f = some d ↔ f.exported = true ∧ ∃ name, f.name = some name ∧
      d = ⟨normalizeIdentifier name, none, .function⟩ := by
  rw [functionDeclaration?]
  cases f.exported with
  | false => simp
  | true =>
      cases f.name with
      | none => simp
      | some name => simp [Declaration.function, Declaration.normalize, eq_comm]

/-- A class is kept exactly if its key is not that of a declaration before it. -/
theorem isKept_iff {before after : List Source.Class} {c : Source.Class} :
    IsKept document before c after ↔ document.classes = before ++ c :: after ∧
      (classDeclaration c).key ∉ (document.functions.filterMap functionDeclaration? ++
        before.map classDeclaration).map Declaration.key := by
  have hfunctions : (classDeclaration c).key ∉
        (document.functions.filterMap functionDeclaration?).map Declaration.key ↔
      ∀ f ∈ document.functions, f.exported = true → ∀ name, f.name = some name →
        c.parent = none → normalizeIdentifier name ≠ normalizeIdentifier c.name := by
    simp only [List.mem_map, List.mem_filterMap, functionDeclaration?_eq_some_iff]
    constructor
    · intro h f hf hexported name hname hparent hsame
      refine h ⟨_, ⟨f, hf, hexported, name, hname, rfl⟩, ?_⟩
      exact Declaration.Key.mk.injEq _ _ _ _ ▸ ⟨hsame, hparent.symm⟩
    · rintro h ⟨d, ⟨f, hf, hexported, name, hname, rfl⟩, hkey⟩
      obtain ⟨hsame, hparent⟩ := Declaration.Key.mk.inj hkey
      exact h f hf hexported name hname hparent.symm hsame
  have hclasses : (classDeclaration c).key ∉ (before.map classDeclaration).map Declaration.key ↔
      ∀ b ∈ before, b.parent = c.parent →
        normalizeIdentifier b.name ≠ normalizeIdentifier c.name := by
    simp only [List.map_map, List.mem_map, Function.comp_apply]
    constructor
    · intro h b hb hparent hsame
      exact h ⟨b, hb, Declaration.Key.mk.injEq _ _ _ _ ▸ ⟨hsame, hparent⟩⟩
    · rintro h ⟨b, hb, hkey⟩
      obtain ⟨hsame, hparent⟩ := Declaration.Key.mk.inj hkey
      exact h b hb hparent hsame
  rw [List.map_append, List.mem_append, not_or, hfunctions, hclasses]
  exact ⟨fun h => ⟨h.classes, h.noFunction, h.noClass⟩, fun h => ⟨h.1, h.2.1, h.2.2⟩⟩

/-- **The declared classes of a document** are those that are kept. -/
theorem mem_types_class_iff (settings : Settings) (request : Request) (document : Document)
    {d : Declaration} :
    d ∈ (unitOf settings request document).types ∧
        (∃ parent members, d.shape = .classType parent members) ↔
      ∃ before c after, IsKept document before c after ∧ d = classDeclaration c := by
  rw [unitOf, CompilationUnit.types_registerAll, declared?_ofDocument]
  change d ∈ addAll Declaration.key [] _ ∧ _ ↔ _
  rw [mem_addAll_iff]
  constructor
  · rintro ⟨⟨front, back, hsplit, hfirst⟩, parent, members, hshape⟩
    -- Functions are no classes, so the declaration stands behind all of them.
    have hnot : d ∉ document.functions.filterMap functionDeclaration? := by
      intro hd
      obtain ⟨f, -, hf⟩ := List.mem_filterMap.mp hd
      obtain ⟨-, name, -, rfl⟩ := functionDeclaration?_eq_some_iff.mp hf
      cases hshape
    obtain ⟨more, rfl, hmore⟩ : ∃ more, front =
        document.functions.filterMap functionDeclaration? ++ more ∧
        document.classes.map classDeclaration = more ++ d :: back := by
      rcases List.append_eq_append_iff.mp hsplit with ⟨more, hfront, hmore⟩ | ⟨more, hall, hmore⟩
      · exact ⟨more, hfront, hmore⟩
      · cases more with
        | nil => exact ⟨[], by simpa using hall.symm, by simpa using hmore.symm⟩
        | cons x more =>
            obtain ⟨rfl, -⟩ := List.cons.inj hmore
            exact absurd (hall ▸ List.mem_append_right _ List.mem_cons_self) hnot
    obtain ⟨before, rest, hclasses, rfl, hrest⟩ := List.map_eq_append_iff.mp hmore
    obtain ⟨c, after, rfl, rfl, -⟩ := List.map_eq_cons_iff.mp hrest
    exact ⟨before, c, after, isKept_iff.mpr ⟨hclasses, hfirst⟩, rfl⟩
  · rintro ⟨before, c, after, hkept, rfl⟩
    obtain ⟨hclasses, hfirst⟩ := isKept_iff.mp hkept
    refine ⟨⟨_, after.map classDeclaration, ?_, hfirst⟩, c.parent, _, rfl⟩
    rw [hclasses, List.map_append, List.map_cons, List.append_assoc]

/-- The members of a declared class are its properties. -/
theorem mem_keys_membersOf {properties : List Source.Property} {field : String} :
    field ∈ OrderedMap.keys (Declaration.membersOf properties) ↔
      field ∈ properties.map Source.Property.name := by
  rw [Declaration.membersOf, OrderedMap.mem_keys_insertMany, List.map_map]
  simp [OrderedMap.keys, Function.comp_def]

/-! ### Constructors that fit their classes -/

/-- **What the constructor of a name assigns**: nothing if there is none. -/
theorem body_constructor (settings : Settings) (request : Request) (document : Document)
    (name : String) :
    ((unitOf settings request document).routine? ⟨.constructor, name⟩).elim [] Routine.body
      = constructorBody document.classes name := by
  have hconstructors (r : Routine) := mem_routines_constructor_iff settings request document (r := r)
  cases hfound : (unitOf settings request document).routine? ⟨.constructor, name⟩ with
  | none =>
      by_contra hassigns
      have hmem := (hconstructors _).mpr ⟨name, Ne.symm hassigns, rfl⟩
      refine List.find?_eq_none.mp hfound _ hmem.1 (beq_iff_eq.mpr rfl)
  | some r =>
      have hfits := List.find?_some hfound
      have hkey : r.key = ⟨.constructor, name⟩ := beq_iff_eq.mp hfits
      obtain ⟨name', -, rfl⟩ := (hconstructors r).mp
        ⟨List.mem_of_find?_eq_some hfound, congrArg Routine.Key.kind hkey⟩
      obtain rfl : name' = name := congrArg Routine.Key.name hkey
      rfl

/-- **Constructors assign members** if all they do is assign members of a declared class that has
their name, up to normal form. -/
def AssignsMembers (u : CompilationUnit) : Prop :=
  ∀ r ∈ u.routines, r.kind = .constructor → ∀ s ∈ r.body,
    ∃ field value, s = .evaluate (.assign (.thisMember field) value) ∧
      ∃ d ∈ u.types, d.name = normalizeIdentifier r.name ∧
        ∃ parent members, d.shape = .classType parent members ∧ field ∈ OrderedMap.keys members

/-- **Constructors assign what their classes initialize** if for each class that is kept the
constructor with its name has one assignment for each of its initialized properties, in their
order, and no others. -/
def AssignsProperties (document : Document) (u : CompilationUnit) : Prop :=
  ∀ before c after, IsKept document before c after →
    (u.routine? ⟨.constructor, c.name⟩).elim [] Routine.body = initializations c

/-- Each initialized property is one of a kept class with the same name, up to normal form. -/
def InitializesMembers (document : Document) : Prop :=
  ∀ c ∈ document.classes, ∀ p ∈ c.properties, p.initializer.isSome = true →
    ∃ before k after, IsKept document before k after ∧
      normalizeIdentifier k.name = normalizeIdentifier c.name ∧
      p.name ∈ k.properties.map Source.Property.name

/-- No class initializes properties under the name of another class that is kept. -/
def SharesNoConstructor (document : Document) : Prop :=
  ∀ before c after, IsKept document before c after →
    ∀ other ∈ before ++ after, other.name = c.name → ∀ p ∈ other.properties, p.initializer = none

/-- Constructors assign members exactly if what is initialized are members. -/
theorem assignsMembers_iff :
    AssignsMembers (unitOf settings request document) ↔ InitializesMembers document := by
  constructor
  · intro hfit c hc p hp hinitialized
    obtain ⟨initializer, hinitializer⟩ := Option.isSome_iff_exists.mp hinitialized
    have hs : Draft.initialization p.name initializer ∈ constructorBody document.classes c.name :=
      mem_constructorBody_iff.mpr
        ⟨c, hc, rfl, mem_initializations_iff.mpr ⟨p, hp, initializer, hinitializer, rfl⟩⟩
    obtain ⟨hr, hkind⟩ := (mem_routines_constructor_iff settings request document).mpr
      ⟨c.name, List.ne_nil_of_mem hs, rfl⟩
    obtain ⟨field, value, hassign, d, hd, hname, parent, members, hshape, hfield⟩ :=
      hfit _ hr hkind _ hs
    obtain ⟨before, k, after, hk, rfl⟩ :=
      (mem_types_class_iff settings request document).mp ⟨hd, parent, members, hshape⟩
    obtain rfl : p.name = field := eq_of_initialization_eq hassign
    obtain ⟨-, rfl⟩ := Shape.classType.inj hshape
    exact ⟨before, k, after, hk, hname, mem_keys_membersOf.mp hfield⟩
  · intro hkept r hr hkind s hs
    obtain ⟨name, -, rfl⟩ := (mem_routines_constructor_iff settings request document).mp ⟨hr, hkind⟩
    obtain ⟨c, hc, rfl, hassign⟩ := mem_constructorBody_iff.mp hs
    obtain ⟨p, hp, initializer, hinitializer, rfl⟩ := mem_initializations_iff.mp hassign
    obtain ⟨before, k, after, hk, hname, hfield⟩ := hkept c hc p hp (by rw [hinitializer]; rfl)
    obtain ⟨hd, -⟩ := (mem_types_class_iff settings request document).mpr
      ⟨before, k, after, hk, rfl⟩
    exact ⟨p.name, _, rfl, _, hd, hname, _, _, rfl, mem_keys_membersOf.mpr hfield⟩

/-- Constructors assign what their classes initialize exactly if no two classes share one. -/
theorem assignsProperties_iff :
    AssignsProperties document (unitOf settings request document) ↔
      SharesNoConstructor document := by
  refine forall_congr' fun before => forall_congr' fun c => forall_congr' fun after =>
    imp_congr_right fun hkept => ?_
  have hbody : constructorBody document.classes c.name
      = constructorBody before c.name ++ (initializations c ++ constructorBody after c.name) := by
    rw [constructorBody, hkept.classes, List.filter_append, List.filter_cons_of_pos (by simp),
      List.flatMap_append, List.flatMap_cons]
    rfl
  have hothers : (∀ other ∈ before ++ after, other.name = c.name →
      ∀ p ∈ other.properties, p.initializer = none) ↔
        constructorBody before c.name = [] ∧ constructorBody after c.name = [] := by
    simp only [constructorBody, List.flatMap_eq_nil_iff, List.mem_filter, decide_eq_true_eq,
      initializations_eq_nil_iff, List.mem_append, or_imp, forall_and, and_imp]
  rw [body_constructor, hbody, hothers]
  constructor
  · intro h
    have hlength := congrArg List.length h
    simp only [List.length_append] at hlength
    exact ⟨List.eq_nil_of_length_eq_zero (by omega), List.eq_nil_of_length_eq_zero (by omega)⟩
  · rintro ⟨hbefore, hafter⟩
    rw [hbefore, hafter, List.nil_append, List.append_nil]

end Pascal

open Pascal (unitOf constructorBody IsKept classDeclaration AssignsMembers AssignsProperties
  InitializesMembers SharesNoConstructor)

/-- The unit of a finished draft is that of its document. -/
theorem unit_draftUnit {settings : Settings} {request : Request} {document : Document}
    (h : (draftUnit settings request document).2 = none) :
    (draftUnit settings request document).1.unit = unitOf settings request document := by
  rw [draftUnit_eq h]
  rfl

/-- **Classes and their constructors.** In a finished draft there is one constructor for each name of
a class with initialized properties; it assigns the initialized properties of all classes with that
name, in the order of the document. The declared classes are those that are kept. Constructors fit
their classes **exactly if** each initialized property is one of a kept class with the same name, up
to normal form, and no class initializes properties under the name of another one that is kept. -/
theorem constructors_of_draft {settings : Settings} {request : Request} {document : Document}
    (h : (draftUnit settings request document).2 = none) :
    let u := (draftUnit settings request document).1.unit
    (∀ r, r ∈ u.routines ∧ r.kind = .constructor ↔
      ∃ name, constructorBody document.classes name ≠ [] ∧
        r = ⟨.constructor, name, [], none, constructorBody document.classes name⟩) ∧
    (∀ d, d ∈ u.types ∧ (∃ parent members, d.shape = .classType parent members) ↔
      ∃ before c after, IsKept document before c after ∧ d = classDeclaration c) ∧
    (AssignsMembers u ∧ AssignsProperties document u ↔
      InitializesMembers document ∧ SharesNoConstructor document) := by
  intro u
  have hu : u = unitOf settings request document := unit_draftUnit h
  rw [hu]
  exact ⟨fun r => Pascal.mem_routines_constructor_iff settings request document,
    fun d => Pascal.mem_types_class_iff settings request document,
    and_congr Pascal.assignsMembers_iff Pascal.assignsProperties_iff⟩

/-- A document that declares a class twice, with a property in each. -/
def twiceDeclared : Document where
  imports := []
  functions := []
  classes := [⟨"Foo", none, [⟨"a", none, some "1", none, false⟩]⟩,
    ⟨"Foo", none, [⟨"b", none, some "2", none, false⟩]⟩]

/-- Of a class that is declared twice the first declaration is kept, but its constructor assigns
the properties of both. -/
theorem constructors_of_twiceDeclared :
    (draftUnit (.ofRoot ⟨"in"⟩) ⟨"Unit", ⟨"Unit.ts"⟩, false⟩ twiceDeclared).2 = none ∧
    (∃ r ∈ (draftUnit (.ofRoot ⟨"in"⟩) ⟨"Unit", ⟨"Unit.ts"⟩, false⟩ twiceDeclared).1.unit.routines,
      r.name = "Foo" ∧ r.body =
        [Pascal.Draft.initialization "a" "1", Pascal.Draft.initialization "b" "2"]) := by
  have hdraft : (draftUnit (.ofRoot ⟨"in"⟩) ⟨"Unit", ⟨"Unit.ts"⟩, false⟩ twiceDeclared).2 = none :=
    rfl
  have hconstructor := ((constructors_of_draft hdraft).1 _).mpr ⟨"Foo", List.cons_ne_nil _ _, rfl⟩
  exact ⟨hdraft, _, hconstructor.1, rfl, rfl⟩

/-- **Constructors do not always fit their classes**: in the draft of a class that is declared twice,
the constructor assigns a property that no declared class has. -/
theorem constructors_do_not_fit :
    ¬ ∀ (settings : Settings) (request : Request) (document : Document),
      (draftUnit settings request document).2 = none →
        AssignsMembers (draftUnit settings request document).1.unit ∧
        AssignsProperties document (draftUnit settings request document).1.unit := by
  intro hall
  have hdraft : (draftUnit (.ofRoot ⟨"in"⟩) ⟨"Unit", ⟨"Unit.ts"⟩, false⟩ twiceDeclared).2 = none :=
    rfl
  obtain ⟨hmembers, -⟩ := hall (.ofRoot ⟨"in"⟩) ⟨"Unit", ⟨"Unit.ts"⟩, false⟩ twiceDeclared hdraft
  rw [unit_draftUnit hdraft, Pascal.assignsMembers_iff] at hmembers
  obtain ⟨before, k, after, hkept, -, hb⟩ := hmembers
    ⟨"Foo", none, [⟨"b", none, some "2", none, false⟩]⟩ (by decide)
    ⟨"b", none, some "2", none, false⟩ (by decide) rfl
  have hclasses := hkept.classes
  -- The class with the property is the second one, and the first one has its key.
  match before with
  | [] =>
      obtain ⟨rfl, -⟩ := List.cons.inj hclasses
      exact absurd hb (by decide)
  | [first] =>
      obtain ⟨rfl, hrest⟩ := List.cons.inj hclasses
      obtain ⟨rfl, -⟩ := List.cons.inj hrest
      exact hkept.noClass _ List.mem_cons_self rfl rfl
  | _ :: _ :: more =>
      have hlength := congrArg List.length hclasses
      simp [twiceDeclared] at hlength

end DelphiUnits

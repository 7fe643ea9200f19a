import DelphiUnits.Pascal.Draft
import DelphiUnits.Proofs.Path.Components

/-!
# Following imports

An import of the project is followed step by step from the input root. Where it leads can be
told without following it, by counting: a name leads one level down, `..` one level up. It is
refused exactly if on its way it gets above the input root, or in the end not below it.

The stage that adds imports takes them one after the other. What it adds for one of them depends
on that one alone. A refused one ends the stage, and what was added before stays.

## Main results

* `exists_followAll_iff`: steps can be followed exactly if they never lead above their start;
* `resolveImport?_eq_some_iff`, `resolveImport?_eq_none_iff`: what an import is resolved to, and
  when it is not;
* `classifyImport_cases`: what an import can name;
* `mem_addImports`, `addImports_append`: what is added, and where it ends.
-/

namespace DelphiUnits.Pascal

open DelphiUnits.Path (Component IsName)

/-! ### Levels -/

/-- How far a step leads down. -/
def descent : Component → Int
  | .name _ => 1
  | .parent => -1
  | .current => 0
  | .root => 0

/-- **How far steps lead down** altogether. -/
def height : List Component → Int
  | [] => 0
  | c :: rest => descent c + height rest

/-- **What a step can do**: stay, go up, or go on to a name. -/
theorem follow_cases {names names' : List String} {c : Component}
    (h : follow names c = some names') :
    (c = .current ∧ names' = names) ∨ (c = .parent ∧ ∃ n, names = n :: names') ∨
      ∃ s, c = .name s ∧ names' = s :: names := by
  cases c with
  | root => cases h
  | current => exact .inl ⟨rfl, (Option.some.inj h).symm⟩
  | name s => exact .inr (.inr ⟨s, rfl, (Option.some.inj h).symm⟩)
  | parent =>
      cases names with
      | nil => cases h
      | cons n above => exact .inr (.inl ⟨rfl, n, Option.some.inj h ▸ rfl⟩)

/-- A step leads to the level that it says, and that is none above the start. -/
theorem length_of_follow {names names' : List String} {c : Component}
    (h : follow names c = some names') : (names'.length : Int) = names.length + descent c := by
  obtain ⟨rfl, rfl⟩ | ⟨rfl, n, rfl⟩ | ⟨s, rfl, rfl⟩ := follow_cases h
  · rw [descent, Int.add_zero]
  · rw [descent, List.length_cons]
    omega
  · rw [descent, List.length_cons, Int.natCast_succ]

/-- A step can be taken if it is not to the root and does not lead above the start. -/
theorem exists_follow {names : List String} {c : Component} (hroot : c ≠ .root)
    (hlevel : 0 ≤ names.length + descent c) : ∃ names', follow names c = some names' := by
  cases c with
  | root => exact absurd rfl hroot
  | current => exact ⟨names, rfl⟩
  | name s => exact ⟨s :: names, rfl⟩
  | parent =>
      cases names with
      | nil => exact absurd hlevel (by decide)
      | cons n above => exact ⟨above, rfl⟩

/-- Steps lead to the level that they say. -/
theorem length_of_followAll {names place : List String} {steps : List Component}
    (h : followAll names steps = some place) :
    (place.length : Int) = names.length + height steps := by
  induction steps generalizing names with
  | nil =>
      obtain rfl : names = place := Option.some.inj h
      rw [height, Int.add_zero]
  | cons c rest ih =>
      obtain ⟨names', hc, hrest⟩ := Option.bind_eq_some_iff.mp h
      have hlevel := length_of_follow hc
      have hplace := ih hrest
      rw [height]
      omega

/-- **Steps can be followed** exactly if none of them is to the root and no first few of them
lead above the start. -/
theorem exists_followAll_iff {names : List String} {steps : List Component} :
    (∃ place, followAll names steps = some place) ↔
      .root ∉ steps ∧ ∀ n, 0 ≤ names.length + height (steps.take n) := by
  induction steps generalizing names with
  | nil =>
      refine ⟨fun _ => ⟨List.not_mem_nil, fun n => ?_⟩, fun _ => ⟨names, rfl⟩⟩
      rw [List.take_nil, height]
      omega
  | cons c rest ih =>
      constructor
      · rintro ⟨place, hplace⟩
        obtain ⟨names', hc, hrest⟩ := Option.bind_eq_some_iff.mp hplace
        have hlevel := length_of_follow hc
        obtain ⟨hroot, hlevels⟩ := ih.mp ⟨place, hrest⟩
        refine ⟨fun hmem => ?_, fun n => ?_⟩
        · rcases List.mem_cons.mp hmem with rfl | hmem
          · cases hc
          · exact hroot hmem
        · cases n with
          | zero =>
              rw [List.take_zero, height]
              omega
          | succ n =>
              have hlevel' := hlevels n
              rw [List.take_succ_cons, height]
              omega
      · rintro ⟨hroot, hlevels⟩
        have hfirst := hlevels 1
        rw [List.take_succ_cons, height, List.take_zero, height, Int.add_zero] at hfirst
        obtain ⟨names', hc⟩ :=
          exists_follow (fun h => hroot (h ▸ List.mem_cons_self)) hfirst
        have hlevel := length_of_follow hc
        have hlevels' (n : Nat) : 0 ≤ names'.length + height (rest.take n) := by
          have hlevel' := hlevels (n + 1)
          rw [List.take_succ_cons, height] at hlevel'
          omega
        obtain ⟨place, hrest⟩ := ih.mpr ⟨fun h => hroot (List.mem_cons_of_mem _ h), hlevels'⟩
        exact ⟨place, Option.bind_eq_some_iff.mpr ⟨names', hc, hrest⟩⟩

/-- The names on the way are those of the steps. -/
theorem mem_of_followAll {names place : List String} {steps : List Component}
    (h : followAll names steps = some place) {n : String} (hn : n ∈ place) :
    n ∈ names ∨ .name n ∈ steps := by
  induction steps generalizing names with
  | nil =>
      obtain rfl : names = place := Option.some.inj h
      exact .inl hn
  | cons c rest ih =>
      obtain ⟨names', hc, hrest⟩ := Option.bind_eq_some_iff.mp h
      rcases ih hrest with hnames' | hsteps
      · obtain ⟨rfl, rfl⟩ | ⟨rfl, m, rfl⟩ | ⟨s, rfl, rfl⟩ := follow_cases hc
        · exact .inl hnames'
        · exact .inl (List.mem_cons_of_mem _ hnames')
        · rcases List.mem_cons.mp hnames' with rfl | hnames
          · exact .inr List.mem_cons_self
          · exact .inl hnames
      · exact .inr (List.mem_cons_of_mem _ hsteps)

/-- Names lead one below the other. -/
theorem followAll_names (names place : List String) :
    followAll names (place.map .name) = some (place.reverse ++ names) := by
  induction place generalizing names with
  | nil => rfl
  | cons n rest ih =>
      rw [List.map_cons, followAll, follow, Option.bind_some, ih, List.reverse_cons,
        List.append_assoc, List.singleton_append]

/-! ### Extensions -/

/-- These are the extensions that an import may have. -/
theorem isSourceExtension_iff {extension : String} :
    isSourceExtension extension.toList = true ↔ extension = "ts" ∨ extension = "pas" := by
  have hts : ['t', 's'] = "ts".toList := by decide
  have hpas : ['p', 'a', 's'] = "pas".toList := by decide
  rw [isSourceExtension, Bool.or_eq_true, beq_iff_eq, beq_iff_eq, hts, hpas, String.toList_inj,
    String.toList_inj]

/-- A name with one of the two extensions loses it. -/
theorem stripExtension_extension {stem extension : String}
    (hextension : extension = "ts" ∨ extension = "pas") (hstem : stem ≠ "") :
    stripExtension (stem ++ "." ++ extension) = stem := by
  have hsplit : Path.splitExtension (stem ++ "." ++ extension).toList
      = (stem.toList, some extension.toList) := by
    refine Path.splitExtension_eq_some_iff.mpr ⟨fun h => hstem (String.toList_inj.mp h), ?_, ?_⟩
    · rcases hextension with rfl | rfl <;> decide
    · rw [String.toList_append, String.toList_append, List.append_assoc]
      rfl
  rw [stripExtension, hsplit]
  simp only [isSourceExtension_iff.mpr hextension, if_true, String.ofList_toList]

/-! ### Resolving -/

/-- The **steps of an import** from the input root on: all its components, or those behind the
components of the input root if it is absolute. -/
def HasSteps (inputRoot : Path) (specifier : String) (steps : List Component) : Prop :=
  Path.components ⟨specifier⟩ =
    if Path.isAbsolute ⟨specifier⟩ then inputRoot.components ++ steps else steps

/-- An import counts by its steps. -/
theorem exists_importPath?_iff {inputRoot : Path} {specifier : String} {steps : List Component} :
    (∃ path, importPath? inputRoot specifier = some path ∧ path.components = steps) ↔
      HasSteps inputRoot specifier steps := by
  rw [HasSteps, importPath?]
  by_cases habsolute : Path.isAbsolute ⟨specifier⟩ = true
  · rw [if_pos habsolute, if_pos habsolute]
    exact Path.exists_stripBase?_iff
  · rw [if_neg habsolute, if_neg habsolute]
    constructor
    · rintro ⟨path, hpath, rfl⟩
      rw [Option.some.inj hpath]
    · rintro rfl
      exact ⟨⟨specifier⟩, rfl, rfl⟩

/-- **An import leads to a place**, given by its names from the input root on, if following its
steps ends there. -/
def LeadsTo (inputRoot : Path) (specifier : String) (place : List String) : Prop :=
  ∃ steps, HasSteps inputRoot specifier steps ∧ followAll [] steps = some place.reverse

/-- An import through names leads to these names, also from the current directory on. -/
theorem leadsTo_of_components (inputRoot : Path) {path : Path} {place : List String}
    (h : path.components = place.map .name) :
    LeadsTo inputRoot path.text place ∧ LeadsTo inputRoot ("./" ++ path.text) place := by
  have hfollow := followAll_names [] place
  rw [List.append_nil] at hfollow
  have hcurrent := Path.components_current (Path.opening_fst_eq_none h)
  rw [h] at hcurrent
  constructor
  · refine ⟨place.map .name, ?_, hfollow⟩
    rw [HasSteps, Path.isAbsolute_eq_false (by simp [h])]
    exact h
  · refine ⟨.current :: place.map .name, ?_, hfollow⟩
    rw [HasSteps, Path.isAbsolute_eq_false (by simp [hcurrent])]
    exact hcurrent

/-- **What an import is resolved to**: the place it leads to, without an extension. -/
theorem resolveImport?_eq_some_iff {inputRoot : Path} {specifier : String} {relative : Path} :
    resolveImport? inputRoot specifier = some relative ↔
      ∃ above last, LeadsTo inputRoot specifier (above ++ [last]) ∧
        relative = Path.ofNames (above ++ [stripExtension last]) := by
  constructor
  · intro h
    obtain ⟨path, hpath, hrest⟩ := Option.bind_eq_some_iff.mp h
    obtain ⟨place, hplace, hlast⟩ := Option.bind_eq_some_iff.mp hrest
    cases place with
    | nil => cases hlast
    | cons last above =>
        obtain rfl := Option.some.inj hlast
        refine ⟨above.reverse, last, ⟨path.components, ?_, ?_⟩, ?_⟩
        · exact exists_importPath?_iff.mp ⟨path, hpath, rfl⟩
        · rw [hplace, List.reverse_concat, List.reverse_reverse]
        · rw [List.reverse_cons]
  · rintro ⟨above, last, ⟨steps, hsteps, hplace⟩, rfl⟩
    obtain ⟨path, hpath, rfl⟩ := exists_importPath?_iff.mpr hsteps
    rw [List.reverse_concat] at hplace
    refine Option.bind_eq_some_iff.mpr ⟨path, hpath, ?_⟩
    refine Option.bind_eq_some_iff.mpr ⟨last :: above.reverse, hplace, ?_⟩
    simp only [List.reverse_cons, List.reverse_reverse]

/-- **An import leads below the input root** if its steps never lead above it on the way, nor
back to it in the end. -/
def LeadsBelow (inputRoot : Path) (specifier : String) : Prop :=
  ∃ steps, HasSteps inputRoot specifier steps ∧ .root ∉ steps ∧
    (∀ n, 0 ≤ height (steps.take n)) ∧ 0 < height steps

/-- An import leads below the input root exactly if it leads to a place there. -/
theorem exists_leadsTo_iff {inputRoot : Path} {specifier : String} :
    (∃ place, place ≠ [] ∧ LeadsTo inputRoot specifier place) ↔
      LeadsBelow inputRoot specifier := by
  constructor
  · rintro ⟨place, hne, steps, hsteps, hplace⟩
    obtain ⟨hroot, hlevels⟩ := exists_followAll_iff.mp ⟨_, hplace⟩
    have hlength := length_of_followAll hplace
    have hpos := List.length_pos_iff.mpr hne
    simp only [List.length_nil, List.length_reverse, Int.ofNat_zero, Int.zero_add]
      at hlevels hlength
    exact ⟨steps, hsteps, hroot, hlevels, by omega⟩
  · rintro ⟨steps, hsteps, hroot, hlevels, hpos⟩
    have hlevels' (n : Nat) : 0 ≤ (([] : List String).length : Int) + height (steps.take n) := by
      rw [List.length_nil]
      exact (Int.zero_add _).symm ▸ hlevels n
    obtain ⟨place, hplace⟩ := exists_followAll_iff.mpr ⟨hroot, hlevels'⟩
    have hlength := length_of_followAll hplace
    refine ⟨place.reverse, ?_, steps, hsteps, by rw [List.reverse_reverse, hplace]⟩
    rintro hnil
    rw [List.reverse_eq_nil_iff.mp hnil, List.length_nil] at hlength
    omega

/-- **An import is resolved** exactly if it leads below the input root. -/
theorem resolveImport?_eq_none_iff {inputRoot : Path} {specifier : String} :
    resolveImport? inputRoot specifier = none ↔ ¬ LeadsBelow inputRoot specifier := by
  rw [Option.eq_none_iff_forall_ne_some, ← exists_leadsTo_iff]
  constructor
  · rintro h ⟨place, hne, hplace⟩
    rw [← List.dropLast_concat_getLast hne] at hplace
    exact h _ (resolveImport?_eq_some_iff.mpr ⟨_, _, hplace, rfl⟩)
  · rintro h relative hrelative
    obtain ⟨above, last, hplace, -⟩ := resolveImport?_eq_some_iff.mp hrelative
    exact h ⟨above ++ [last], by simp, hplace⟩

/-- A place is made of names, and these of characters of what leads there. -/
theorem LeadsTo.isName {inputRoot : Path} {specifier : String} {place : List String}
    (h : LeadsTo inputRoot specifier place) {n : String} (hn : n ∈ place) :
    IsName n ∧ ∀ c ∈ n.toList, c ∈ specifier.toList := by
  obtain ⟨steps, hsteps, hplace⟩ := h
  have hname : .name n ∈ steps :=
    (mem_of_followAll hplace (List.mem_reverse.mpr hn)).resolve_left List.not_mem_nil
  refine Path.isName_of_mem (p := ⟨specifier⟩) ?_
  rw [hsteps]
  split
  · exact List.mem_append_right _ hname
  · exact hname

/-- **What an import can name** if it is not refused: a system unit, nothing, or a unit of the
project. -/
theorem classifyImport_cases {settings : Settings} {specifier : String} {imported : Imported}
    (h : classifyImport settings specifier = .ok imported) :
    (∃ part, settings.systemPart? specifier = some part ∧ systemName part ≠ "" ∧
      imported = .system (systemName part)) ∨
    (∃ part, settings.systemPart? specifier = some part ∧ systemName part = "" ∧
      imported = .nothing) ∨
    (settings.systemPart? specifier = none ∧
      ∃ relative, resolveImport? settings.inputRoot specifier = some relative ∧
        settings.reservedWords.contains (projectName relative) = false ∧
        imported = .project (projectName relative) (projectPath relative)) := by
  rw [classifyImport] at h
  cases hsystem : settings.systemPart? specifier with
  | some part =>
      rw [hsystem] at h
      by_cases hname : systemName part = ""
      · simp only [hname, if_true] at h
        exact .inr (.inl ⟨part, rfl, hname, (Except.ok.inj h).symm⟩)
      · simp only [hname, if_false] at h
        exact .inl ⟨part, rfl, hname, (Except.ok.inj h).symm⟩
  | none =>
      cases hrelative : resolveImport? settings.inputRoot specifier with
      | none => simp [hsystem, hrelative] at h
      | some relative =>
          by_cases hreserved : settings.reservedWords.contains (projectName relative) = true
          · simp [hsystem, hrelative, hreserved] at h
          · simp only [hsystem, hrelative, hreserved] at h
            exact .inr (.inr ⟨rfl, relative, rfl, Bool.eq_false_iff.mpr hreserved,
              (Except.ok.inj h).symm⟩)

/-- What makes an import name a unit of the project. -/
theorem classifyImport_eq_project_iff {settings : Settings} {specifier name path : String} :
    classifyImport settings specifier = .ok (.project name path) ↔
      settings.systemPart? specifier = none ∧
        ∃ relative, resolveImport? settings.inputRoot specifier = some relative ∧
          settings.reservedWords.contains (projectName relative) = false ∧
          name = projectName relative ∧ path = projectPath relative := by
  constructor
  · intro h
    obtain ⟨_, -, -, h⟩ | ⟨_, -, -, h⟩ | ⟨hsystem, relative, hrelative, hreserved, h⟩ :=
      classifyImport_cases h
    · cases h
    · cases h
    · obtain ⟨rfl, rfl⟩ := Imported.project.inj h
      exact ⟨hsystem, relative, hrelative, hreserved, rfl, rfl⟩
  · rintro ⟨hsystem, relative, hrelative, hreserved, rfl, rfl⟩
    rw [classifyImport, hsystem, hrelative]
    simp only [hreserved]
    rfl

/-- What makes an import lead outside. -/
theorem classifyImport_of_resolveImport?_eq_none {settings : Settings} {specifier : String}
    (hsystem : settings.systemPart? specifier = none)
    (hrelative : resolveImport? settings.inputRoot specifier = none) :
    classifyImport settings specifier = .error .outsideRoot := by
  rw [classifyImport, hsystem, hrelative]

/-! ### Adding imports -/

/-- What an import adds to the `uses` clause. -/
def Imported.usedUnit? : Imported → Option UsedUnit
  | .system name => some ⟨Text.normalizeIdentifier name, none⟩
  | .nothing => none
  | .project name path => some ⟨Text.normalizeIdentifier name, some path⟩

/-- A unit is used after it has been added, and no other than before. -/
theorem mem_addUse {u : CompilationUnit} {name : String} {path : Option String}
    {used : UsedUnit} :
    used ∈ (u.addUse name path).usedUnits ↔
      used ∈ u.usedUnits ∨ used = ⟨Text.normalizeIdentifier name, path⟩ := by
  rw [CompilationUnit.addUse]
  by_cases hused : ⟨Text.normalizeIdentifier name, path⟩ ∈ u.usedUnits
  · rw [if_pos hused]
    refine ⟨.inl, ?_⟩
    rintro (h | rfl)
    · exact h
    · exact hused
  · rw [if_neg hused]
    simp

namespace Draft

/-- **One import** adds what it names, and nothing else. -/
theorem mem_addImported {d : Draft} {specifier : String} {imported : Imported}
    {used : UsedUnit} :
    used ∈ (d.addImported specifier imported).unit.usedUnits ↔
      used ∈ d.unit.usedUnits ∨ imported.usedUnit? = some used := by
  cases imported with
  | system name => exact mem_addUse.trans (by simp [Imported.usedUnit?, eq_comm])
  | nothing => simp [addImported, report, Imported.usedUnit?]
  | project name path => exact mem_addUse.trans (by simp [Imported.usedUnit?, eq_comm])

variable {settings : Settings} {file : Path}

/-- What was used before stays. -/
theorem mem_addImports_of_mem {d : Draft} {used : UsedUnit} (hused : used ∈ d.unit.usedUnits)
    (imports : List Source.Import) :
    used ∈ (d.addImports settings file imports).1.unit.usedUnits := by
  fun_induction addImports settings file d imports with
  | case1 d => exact hused
  | case2 d i rest imported himported ih => exact ih (mem_addImported.mpr (.inl hused))
  | case3 d i rest e he => exact hused

/-- **What the stage adds**, it adds for one of the imports. -/
theorem mem_addImports {d : Draft} {imports : List Source.Import} {used : UsedUnit}
    (hused : used ∈ (d.addImports settings file imports).1.unit.usedUnits) :
    used ∈ d.unit.usedUnits ∨ ∃ i ∈ imports, ∃ imported,
      classifyImport settings i.specifier = .ok imported ∧ imported.usedUnit? = some used := by
  fun_induction addImports settings file d imports with
  | case1 d => exact .inl hused
  | case2 d i rest imported himported ih =>
      rcases ih hused with hbefore | ⟨j, hj, hadded⟩
      · rcases mem_addImported.mp hbefore with hd | hi
        · exact .inl hd
        · exact .inr ⟨i, List.mem_cons_self, imported, himported, hi⟩
      · exact .inr ⟨j, List.mem_cons_of_mem _ hj, hadded⟩
  | case3 d i rest e he => exact .inl hused

/-- **Imports are added one after the other**: those behind others that were not refused are
added to what these gave. -/
theorem addImports_append {d : Draft} {before : List Source.Import}
    (hbefore : (d.addImports settings file before).2 = none) (after : List Source.Import) :
    d.addImports settings file (before ++ after) =
      (d.addImports settings file before).1.addImports settings file after := by
  fun_induction addImports settings file d before with
  | case1 d => rfl
  | case2 d i rest imported himported ih =>
      rw [List.cons_append, addImports, himported]
      exact ih hbefore
  | case3 d i rest e he => cases hbefore

end Draft

end DelphiUnits.Pascal

import DelphiUnits.Proofs.GeneratedFile.Draft
import DelphiUnits.Proofs.GeneratedFile.Failure
import DelphiUnits.Proofs.Pascal.Resolution
import DelphiUnits.Proofs.Text.Identifier

/-!
# Imports without a name

A system import names what follows its prefix, without the slashes around it. If these are all that
follows, it names no unit: it is skipped, and a warning says so. So a **system unit** always has a
name.

An import of the project names the last name of the place that it leads to, without an extension. An
extension may have anything before it, also dots alone: `...ts` without its extension is `..`, which
is no name, and `..ts` is `.`, which leaves the name to what stands above it. Nothing is said about
such an import, and if no name is left, a unit **without a name** is used.

## Main results

* `systemName_eq_empty_iff`, `projectName_eq_empty_iff`: where an import has no name;
* `Draft.forall_name_ne_empty_iff`, `Draft.diagnostics_addImports`: the names that a finished stage
  gives, and its warnings;
* `addImports_names`: when they all have names, and what happens to the imports without one;
* `addImports_nameless`: a unit without a name.
-/

namespace DelphiUnits.Pascal

open DelphiUnits.Path (IsName)

variable {settings : Settings} {file : Path} {specifier : String}

/-! ### System units -/

/-- A text is trimmed to nothing if it is slashes only. -/
theorem trimSlashes_eq_nil_iff {cs : List Char} : trimSlashes cs = [] ↔ ∀ c ∈ cs, c = '/' := by
  rw [trimSlashes, List.reverse_eq_nil_iff, List.dropWhile_eq_nil_iff]
  simp only [List.mem_reverse, beq_iff_eq]
  constructor
  · intro hrest c hc
    rw [← List.takeWhile_append_dropWhile (p := (· == '/')) (l := cs)] at hc
    rcases List.mem_append.mp hc with hfront | hrest'
    · exact beq_iff_eq.mp (List.mem_takeWhile_imp (p := (· == '/')) hfront)
    · exact hrest c hrest'
  · intro h c hc
    exact h c ((List.dropWhile_suffix _).subset hc)

/-- **A system import has no name** if nothing but slashes follows its prefix. -/
theorem systemName_eq_empty_iff {part : List Char} :
    systemName part = "" ↔ ∀ c ∈ part, c = '/' := by
  rw [systemName, ← String.toList_eq_nil_iff, String.toList_ofList, List.map_eq_nil_iff,
    trimSlashes_eq_nil_iff]

/-- **A bare prefix**: a system import with nothing but slashes behind its prefix. -/
def IsBare (settings : Settings) (specifier : String) : Prop :=
  ∃ part ∈ settings.systemPart? specifier, ∀ c ∈ part, c = '/'

instance (settings : Settings) (specifier : String) : Decidable (IsBare settings specifier) :=
  decidable_of_iff ((settings.systemPart? specifier).any (·.all (· == '/')) = true)
    (by simp [IsBare, Option.any_eq_true])

/-! ### Units of the project -/

/-- **A place without a name**, once the extension of its last name is gone: what is left of that
name is `..`, or it is `.` and there is nothing above it. -/
inductive Nameless : List String → Prop
  /-- Two dots before an extension. -/
  | parent (above : List String) {extension : String} : extension = "ts" ∨ extension = "pas" →
      Nameless (above ++ [".." ++ "." ++ extension])
  /-- One dot before an extension, and nothing above. -/
  | current {extension : String} : extension = "ts" ∨ extension = "pas" →
      Nameless ["." ++ "." ++ extension]

/-- A unit of the project has no name if its path leads to none. -/
theorem projectName_eq_empty_iff_fileName? {relative : Path} :
    projectName relative = "" ↔ relative.fileName? = none := by
  rw [projectName]
  cases hname : relative.fileName? with
  | none => simp
  | some n =>
      simpa using (Path.isName_of_fileName? hname).ne_dots.1

/-- A name without its extension is still one segment with something in it. -/
theorem stripExtension_of_isName {name : String} (hname : IsName name) :
    '/' ∉ (stripExtension name).toList ∧ stripExtension name ≠ "" := by
  generalize hleft : stripExtension name = left
  rcases stripped_iff.mpr hleft with ⟨-, hstem, htext⟩ | -
  · refine ⟨fun hslash => hname.noSlash ?_, hstem⟩
    rw [htext, String.toList_append, String.toList_append]
    exact List.mem_append_left _ (List.mem_append_left _ hslash)
  · exact ⟨hname.noSlash, hname.ne_dots.1⟩

/-- What is no name itself is left of a name only if that had an extension. -/
theorem stripExtension_eq_iff {name stem : String} (hne : name ≠ stem) (hstem : stem ≠ "") :
    stripExtension name = stem ↔
      ∃ extension, (extension = "ts" ∨ extension = "pas") ∧ name = stem ++ "." ++ extension := by
  constructor
  · intro h
    rcases stripped_iff.mpr h with ⟨hextension, -, htext⟩ | -
    · exact ⟨_, hextension, htext⟩
    · exact absurd rfl hne
  · rintro ⟨extension, hextension, rfl⟩
    exact stripExtension_extension hextension hstem

/-- **A unit of the project has no name** exactly if the place that an import leads to has none. -/
theorem projectName_eq_empty_iff {above : List String} {last : String}
    (hnames : ∀ n ∈ above ++ [last], IsName n) :
    projectName (.ofNames (above ++ [stripExtension last])) = "" ↔ Nameless (above ++ [last]) := by
  obtain ⟨habove, hlast⟩ := List.forall_mem_append.mp hnames
  have hname := hlast last List.mem_cons_self
  obtain ⟨hslash, hempty⟩ := stripExtension_of_isName hname
  obtain ⟨-, hcurrent, hparent⟩ := hname.ne_dots
  rw [projectName_eq_empty_iff_fileName?,
    Path.fileName?_ofNames_concat_eq_none_iff habove hslash hempty,
    stripExtension_eq_iff hparent (by decide), stripExtension_eq_iff hcurrent (by decide)]
  constructor
  · rintro (⟨extension, hextension, rfl⟩ | ⟨⟨extension, hextension, rfl⟩, rfl⟩)
    · exact .parent above hextension
    · exact .current hextension
  · generalize hplace : above ++ [last] = place
    rintro (⟨above', hextension⟩ | hextension)
    · obtain ⟨-, hlast⟩ := List.append_inj' hplace rfl
      exact .inl ⟨_, hextension, List.singleton_inj.mp hlast⟩
    · obtain ⟨habove, hlast⟩ := List.append_inj' (hplace.trans (List.nil_append _).symm) rfl
      exact .inr ⟨⟨_, hextension, List.singleton_inj.mp hlast⟩, habove⟩

/-- **An import loses its name** if it is none of a system unit and leads to a place without a
name. -/
def LosesName (settings : Settings) (specifier : String) : Prop :=
  ¬ IsSystem settings specifier ∧
    ∃ place, LeadsTo settings.inputRoot specifier place ∧ Nameless place

/-- A system import does not lose its name. -/
theorem not_losesName_of_systemPart? {part : List Char}
    (hsystem : settings.systemPart? specifier = some part) : ¬ LosesName settings specifier := by
  rintro ⟨hnot, -⟩
  rw [systemPart?_eq_none_iff.mpr hnot] at hsystem
  cases hsystem

/-! ### Imports -/

/-- **A unit without a name** is what an import names exactly if it loses its name. -/
theorem exists_nameless_iff {imported : Imported}
    (h : classifyImport settings specifier = .ok imported) :
    (∃ used, imported.usedUnit? = some used ∧ used.name = "") ↔ LosesName settings specifier := by
  obtain ⟨part, hsystem, hname, rfl⟩ | ⟨part, hsystem, -, rfl⟩ | ⟨hsystem, _, hrelative, -, rfl⟩ :=
    classifyImport_cases h
  · simp [Imported.usedUnit?, hname, not_losesName_of_systemPart? hsystem]
  · simp [Imported.usedUnit?, not_losesName_of_systemPart? hsystem]
  · obtain ⟨above, last, hplace, rfl⟩ := resolveImport?_eq_some_iff.mp hrelative
    have hempty := projectName_eq_empty_iff fun n hn => (hplace.isName hn).1
    constructor
    · rintro ⟨used, hused, hname⟩
      obtain rfl := Option.some.inj hused
      rw [Text.normalizeIdentifier_eq_empty_iff, hempty] at hname
      exact ⟨systemPart?_eq_none_iff.mp hsystem, _, hplace, hname⟩
    · rintro ⟨-, place, hplace', hnameless⟩
      obtain rfl := hplace.unique hplace'
      exact ⟨_, rfl, Text.normalizeIdentifier_eq_empty_iff.mpr (hempty.mpr hnameless)⟩

/-- **A system unit has a name.** -/
theorem name_ne_empty_of_path_eq_none {imported : Imported} {used : UsedUnit}
    (h : classifyImport settings specifier = .ok imported) (hused : imported.usedUnit? = some used)
    (hpath : used.path = none) : used.name ≠ "" := by
  obtain ⟨part, -, hname, rfl⟩ | ⟨part, -, -, rfl⟩ | ⟨-, relative, -, -, rfl⟩ :=
    classifyImport_cases h
  · obtain rfl := Option.some.inj hused
    exact mt Text.normalizeIdentifier_eq_empty_iff.mp hname
  · cases hused
  · obtain rfl := Option.some.inj hused
    cases hpath

/-- An import of the project that is not refused leads below the input root. -/
theorem isSystem_or_leadsBelow {imported : Imported}
    (h : classifyImport settings specifier = .ok imported) :
    IsSystem settings specifier ∨ LeadsBelow settings.inputRoot specifier := by
  by_cases hsystem : IsSystem settings specifier
  · exact .inl hsystem
  · refine .inr (not_not.mp fun hbelow => ?_)
    rw [classifyImport_of_resolveImport?_eq_none (systemPart?_eq_none_iff.mpr hsystem)
      (resolveImport?_eq_none_iff.mpr hbelow)] at h
    cases h

/-- There is something to say about bare prefixes, and about no other import. -/
theorem importWarning?_eq (settings : Settings) (i : Source.Import) :
    importWarning? settings i = if IsBare settings i.specifier then
      some (Draft.namelessImport i.specifier) else none := by
  rw [importWarning?]
  cases hsystem : settings.systemPart? i.specifier with
  | none => simp [IsBare, hsystem]
  | some part =>
      have hbare : IsBare settings i.specifier ↔ systemName part = "" := by
        simp [IsBare, hsystem, systemName_eq_empty_iff]
      simp only [hbare]
      rfl

/-- A bare prefix registers nothing. -/
theorem ofImport_of_isBare {i : Source.Import} (hbare : IsBare settings i.specifier) :
    Registration.ofImport settings i = [] := by
  obtain ⟨part, hpart, hslashes⟩ := hbare
  have hnothing : classifyImport settings i.specifier = .ok .nothing := by
    rw [classifyImport, hpart]
    exact if_pos (systemName_eq_empty_iff.mpr hslashes)
  rw [Registration.ofImport, hnothing]

/-- So bare prefixes may be left out. -/
theorem flatMap_ofImport_filter (settings : Settings) (imports : List Source.Import) :
    (imports.filter (¬ IsBare settings ·.specifier)).flatMap (Registration.ofImport settings)
      = imports.flatMap (Registration.ofImport settings) := by
  induction imports with
  | nil => rfl
  | cons i rest ih =>
      by_cases hbare : IsBare settings i.specifier
      · rw [List.filter_cons_of_neg (by simpa using hbare), ih, List.flatMap_cons,
          ofImport_of_isBare hbare, List.nil_append]
      · rw [List.filter_cons_of_pos (by simpa using hbare), List.flatMap_cons, ih,
          List.flatMap_cons]

namespace Draft

variable {d : Draft} {imports : List Source.Import}

/-- **The stage finishes** exactly if no import is refused. -/
theorem addImports_snd_eq_none_iff :
    (d.addImports settings file imports).2 = none ↔
      ∀ i ∈ imports, ∃ imported, classifyImport settings i.specifier = .ok imported := by
  rw [addImports_snd, List.findSome?_eq_none_iff]
  refine forall₂_congr fun i _ => ?_
  rw [refusal?]
  cases classifyImport settings i.specifier <;> simp

/-- **The units that a finished stage uses** are those from before and those that imports name. -/
theorem mem_addImports_iff (h : (d.addImports settings file imports).2 = none) {used : UsedUnit} :
    used ∈ (d.addImports settings file imports).1.unit.usedUnits ↔
      used ∈ d.unit.usedUnits ∨ ∃ i ∈ imports, ∃ imported,
        classifyImport settings i.specifier = .ok imported ∧ imported.usedUnit? = some used := by
  refine ⟨mem_addImports, ?_⟩
  rintro (hbefore | ⟨i, hi, imported, himported, hused⟩)
  · exact mem_addImports_of_mem hbefore imports
  · fun_induction addImports settings file d imports with
    | case1 d => cases hi
    | case2 d j rest imported' himported' ih =>
        rcases List.mem_cons.mp hi with rfl | hrest
        · obtain rfl : imported' = imported := Except.ok.inj (himported'.symm.trans himported)
          exact mem_addImports_of_mem (mem_addImported.mpr (.inr hused)) rest
        · exact ih h hrest
    | case3 d j rest e he => cases h

/-- **All used units have names** exactly if those from before do and no import loses its name. -/
theorem forall_name_ne_empty_iff (h : (d.addImports settings file imports).2 = none) :
    (∀ used ∈ (d.addImports settings file imports).1.unit.usedUnits, used.name ≠ "") ↔
      (∀ used ∈ d.unit.usedUnits, used.name ≠ "") ∧
        ∀ i ∈ imports, ¬ LosesName settings i.specifier := by
  constructor
  · refine fun hnames => ⟨fun used hused => ?_, fun i hi hloses => ?_⟩
    · exact hnames used (mem_addImports_of_mem hused imports)
    · obtain ⟨imported, himported⟩ := addImports_snd_eq_none_iff.mp h i hi
      obtain ⟨used, hused, hname⟩ := (exists_nameless_iff himported).mpr hloses
      have hmem := (mem_addImports_iff h).mpr (.inr ⟨i, hi, imported, himported, hused⟩)
      exact hnames used hmem hname
  · rintro ⟨hbefore, hloses⟩ used hused hname
    rcases mem_addImports hused with hmem | ⟨i, hi, imported, himported, hnamed⟩
    · exact hbefore used hmem hname
    · exact hloses i hi ((exists_nameless_iff himported).mp ⟨used, hnamed, hname⟩)

/-- **Bare prefixes are skipped**: without them the stage gives the same unit. -/
theorem unit_addImports_filter (h : (d.addImports settings file imports).2 = none) :
    (d.addImports settings file (imports.filter (¬ IsBare settings ·.specifier))).1.unit
      = (d.addImports settings file imports).1.unit := by
  have hkept : (d.addImports settings file
      (imports.filter (¬ IsBare settings ·.specifier))).2 = none :=
    addImports_snd_eq_none_iff.mpr fun i hi =>
      addImports_snd_eq_none_iff.mp h i (List.mem_of_mem_filter hi)
  rw [addImports_eq d h, addImports_eq d hkept, flatMap_ofImport_filter]

/-- **What the stage says** is one warning for each bare prefix. -/
theorem diagnostics_addImports (h : (d.addImports settings file imports).2 = none) :
    (d.addImports settings file imports).1.diagnostics = d.diagnostics ++
      (imports.filter (IsBare settings ·.specifier)).map (namelessImport ·.specifier) := by
  rw [addImports_eq d h, ← List.filterMap_eq_map, List.filterMap_filter]
  simp only [importWarning?_eq, decide_eq_true_eq, Function.comp_apply]

end Draft

/-- **The names of used units** after all imports were added. They all have names **exactly if**
those from before do and no import loses its name. System units have names in any case. Of the
imports, bare prefixes are skipped: without them the unit is the same, and there is a warning for
each of them. No other is without a unit, for those that lead nowhere are refused. -/
theorem addImports_names {d : Draft} {imports : List Source.Import}
    (h : (d.addImports settings file imports).2 = none) :
    let result := (d.addImports settings file imports).1
    ((∀ used ∈ result.unit.usedUnits, used.name ≠ "") ↔
      (∀ used ∈ d.unit.usedUnits, used.name ≠ "") ∧
        ∀ i ∈ imports, ¬ LosesName settings i.specifier) ∧
    (∀ used ∈ result.unit.usedUnits, used.path = none →
      used ∈ d.unit.usedUnits ∨ used.name ≠ "") ∧
    (d.addImports settings file (imports.filter (¬ IsBare settings ·.specifier))).1.unit
      = result.unit ∧
    result.diagnostics = d.diagnostics ++
      (imports.filter (IsBare settings ·.specifier)).map (Draft.namelessImport ·.specifier) ∧
    (∀ i ∈ imports, IsSystem settings i.specifier ∨
      LeadsBelow settings.inputRoot i.specifier) := by
  refine ⟨Draft.forall_name_ne_empty_iff h, fun used hused hpath => ?_,
    Draft.unit_addImports_filter h, Draft.diagnostics_addImports h, fun i hi => ?_⟩
  · rcases Draft.mem_addImports hused with hmem | ⟨i, -, imported, himported, hnamed⟩
    · exact .inl hmem
    · exact .inr (name_ne_empty_of_path_eq_none himported hnamed hpath)
  · obtain ⟨imported, himported⟩ := Draft.addImports_snd_eq_none_iff.mp h i hi
    exact isSystem_or_leadsBelow himported

/-- Imports of which one is a bare prefix and one ends in a dot before an extension. -/
def dottedImports : List Source.Import := [⟨"@delphi//"⟩, ⟨"./utils"⟩, ⟨"lib/..ts"⟩]

/-- The bare prefix is skipped, and `..ts` below a directory leaves the name to that directory. -/
theorem addImports_dottedImports :
    ((Draft.empty .library "Unit").addImports (.ofRoot ⟨"/project/in"⟩) ⟨"Unit.ts"⟩
      dottedImports).2 = none ∧
    ((Draft.empty .library "Unit").addImports (.ofRoot ⟨"/project/in"⟩) ⟨"Unit.ts"⟩
      dottedImports).1.unit.usedUnits
        = [⟨"Utils", some "utils.pas"⟩, ⟨"Lib", some "lib/..pas"⟩] ∧
    ((Draft.empty .library "Unit").addImports (.ofRoot ⟨"/project/in"⟩) ⟨"Unit.ts"⟩
      dottedImports).1.diagnostics = [Draft.namelessImport "@delphi//"] ∧
    ∀ i ∈ dottedImports, ¬ LosesName (.ofRoot ⟨"/project/in"⟩) i.specifier := by
  have hfinished : ((Draft.empty .library "Unit").addImports (.ofRoot ⟨"/project/in"⟩) ⟨"Unit.ts"⟩
      dottedImports).2 = none := by decide
  have hbare : dottedImports.filter (IsBare (.ofRoot ⟨"/project/in"⟩) ·.specifier)
      = [⟨"@delphi//"⟩] := by decide
  obtain ⟨hnames, -, -, hwarnings, -⟩ := addImports_names hfinished
  rw [hbare] at hwarnings
  exact ⟨hfinished, by decide, hwarnings, (hnames.mp (by decide)).2⟩

/-- **A unit without a name**: `..ts` is an import that is not refused, and no warning is given. -/
theorem addImports_nameless :
    ((Draft.empty .library "Unit").addImports (.ofRoot ⟨"/project/in"⟩) ⟨"Unit.ts"⟩
      [⟨"..ts"⟩]).2 = none ∧
    ((Draft.empty .library "Unit").addImports (.ofRoot ⟨"/project/in"⟩) ⟨"Unit.ts"⟩
      [⟨"..ts"⟩]).1.unit.usedUnits = [⟨"", some "..pas"⟩] ∧
    ((Draft.empty .library "Unit").addImports (.ofRoot ⟨"/project/in"⟩) ⟨"Unit.ts"⟩
      [⟨"..ts"⟩]).1.diagnostics = [] := by
  exact ⟨by decide, by decide, by decide⟩

end DelphiUnits.Pascal

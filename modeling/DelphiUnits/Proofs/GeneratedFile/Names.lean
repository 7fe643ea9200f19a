import DelphiUnits.Proofs.Pascal.Containment
import DelphiUnits.Proofs.Pascal.Header
import DelphiUnits.Proofs.Pascal.Registered
import DelphiUnits.Proofs.Text.NormalForm

/-!
# Reserved names

A generated file speaks of generated units in two places: its header has the name of the unit it
holds, and its `uses` clause the names of other units of the project. The names in the `uses` clause
are those of imports. They are compared with the reserved words before they are brought into normal
form, which makes no difference, since letter case does not count. So **no unit of the project is used
under a reserved name**.

The name in the header is the one that was asked for, and nobody compares it with anything: a file can
be generated whose unit has a reserved name, although no other file may import that unit.

## Main results

* `generate_reserves_imports`: which names in a generated file are not reserved;
* `generate_reserved_header`: a generated file whose unit has a reserved name.
-/

namespace DelphiUnits

open Pascal (CompilationUnit Draft Imported OutlineLine Registration UsedUnit classifyImport outline
  separator usesOutline)
open Source (Document)

/-! ### Reserved words -/

namespace ReservedWords

/-- The words of a set are those a name is compared with. -/
theorem contains_eq_false_iff {r : ReservedWords} {name : String} :
    r.contains name = false ↔ ∀ word ∈ r.words, Text.sameIgnoringCase word name = false := by
  simp [contains]

end ReservedWords

/-- A name is **reserved**: it is one of the reserved words, up to letter case. -/
def IsReserved (settings : Settings) (name : String) : Prop :=
  ∃ word ∈ settings.reservedWords.words, Text.sameIgnoringCase word name = true

/-- A name is not reserved exactly if the set of reserved words does not have it. -/
theorem not_isReserved_iff {settings : Settings} {name : String} :
    ¬ IsReserved settings name ↔ settings.reservedWords.contains name = false := by
  rw [ReservedWords.contains_eq_false_iff, IsReserved]
  simp

/-! ### Used units -/

namespace Pascal

/-- An import uses what it names. -/
theorem used?_ofImport (settings : Settings) (i : Source.Import) :
    (Registration.ofImport settings i).filterMap Registration.used? =
      ((classifyImport settings i.specifier).toOption.bind Imported.usedUnit?).toList := by
  rw [Registration.ofImport]
  rcases classifyImport settings i.specifier with _ | (_ | _ | _) <;> rfl

/-- Functions use no units. -/
theorem used?_ofFunction (f : Source.Function) :
    (Registration.ofFunction f).filterMap Registration.used? = [] := by
  rw [Registration.ofFunction]
  cases f.name with
  | none => cases f.defaultExport <;> rfl
  | some name => cases f.exported <;> rfl

/-- Classes use no units. -/
theorem used?_ofClass (c : Source.Class) :
    (Registration.ofClass c).filterMap Registration.used? = [] := by
  have hproperty (p : Source.Property) :
      (Registration.ofProperty c.name p).filterMap Registration.used? = [] := by
    rw [Registration.ofProperty]
    cases p.initializer <;> rfl
  rw [Registration.ofClass, List.filterMap_append, List.filterMap_flatMap]
  simp [hproperty, Registration.used?]

end Pascal

/-- **The units that a finished draft uses** are named by its imports. -/
theorem exists_import_of_mem_usedUnits {settings : Settings} {request : Request}
    {document : Document} (h : (draftUnit settings request document).2 = none) {used : UsedUnit}
    (hused : used ∈ (draftUnit settings request document).1.unit.usedUnits) :
    ∃ i ∈ document.imports, ∃ imported, classifyImport settings i.specifier = .ok imported ∧
      imported.usedUnit? = some used := by
  rw [draftUnit_eq h, CompilationUnit.usedUnits_registerAll] at hused
  have hcalls := Pascal.mem_of_mem_addAll hused
  rw [Registration.ofDocument, List.filterMap_append, List.filterMap_append,
    List.filterMap_flatMap, List.filterMap_flatMap, List.filterMap_flatMap] at hcalls
  simp only [Pascal.used?_ofFunction, Pascal.used?_ofClass, List.flatMap_eq_nil_iff.mpr fun _ _ => rfl,
    List.append_nil, List.mem_flatMap] at hcalls
  obtain ⟨i, hi, hmem⟩ := hcalls
  rw [Pascal.used?_ofImport, Option.mem_toList] at hmem
  rcases himported : classifyImport settings i.specifier with e | imported <;> rw [himported] at hmem
  · cases hmem
  · exact ⟨i, hi, imported, himported, hmem⟩

/-- **No unit of the project is used under a reserved name.** -/
theorem not_isReserved_of_mem_usedUnits {settings : Settings} {request : Request}
    {document : Document} (h : (draftUnit settings request document).2 = none) {used : UsedUnit}
    (hused : used ∈ (draftUnit settings request document).1.unit.usedUnits)
    (hpath : used.path.isSome = true) : ¬ IsReserved settings used.name := by
  obtain ⟨i, -, imported, himported, hnamed⟩ := exists_import_of_mem_usedUnits h hused
  obtain ⟨path, hpath⟩ := Option.isSome_iff_exists.mp hpath
  obtain ⟨name, hproject, hname⟩ := Pascal.classifyImport_of_usedUnit? himported hnamed hpath
  obtain ⟨-, relative, -, hfree, rfl, -⟩ := Pascal.classifyImport_eq_project_iff.mp hproject
  rw [not_isReserved_iff, hname, ReservedWords.contains_normalizeIdentifier]
  exact hfree

/-! ### Generated files -/

/-- **The names of generated units** in the text of a unit: its own, and those of the units of the
project that it uses. -/
def Pascal.CompilationUnit.generatedNames (u : CompilationUnit) : List String :=
  u.name :: (u.usedUnits.filter (·.path.isSome)).map (·.name)

/-- **Which names in a generated file are not reserved.** The file starts with the name that was
asked for and goes on with its `uses` clause. No unit of the project is in the `uses` clause under a
reserved name, so of all names of generated units in the file none is reserved **exactly if** the one
that was asked for is not. -/
theorem generate_reserves_imports {settings : Settings} {request : Request} {document : Document}
    {g : GeneratedFile} (h : generate settings request document = .ok g) :
    let u := (draftUnit settings request document).1.unit
    g.content = Layout.Line.renderAll settings.indent (OutlineLine.lines (outline u)) ∧
    (∃ rest, outline u =
      [⟨.header, g.kind.keyword ++ " " ++ request.name ++ ";"⟩, separator,
        ⟨.interfaceWord, "interface"⟩] ++ usesOutline u ++ rest) ∧
    (∀ used ∈ u.usedUnits, used.path.isSome = true → ¬ IsReserved settings used.name) ∧
    ((∀ name ∈ u.generatedNames, ¬ IsReserved settings name) ↔
      ¬ IsReserved settings request.name) := by
  intro u
  obtain ⟨hfinished, rfl⟩ := generate_eq_ok_iff.mp h
  have hname : u.name = request.name := name_draftUnit hfinished
  have hused : ∀ used ∈ u.usedUnits, used.path.isSome = true → ¬ IsReserved settings used.name :=
    fun used hmem => not_isReserved_of_mem_usedUnits hfinished hmem
  refine ⟨(Pascal.laysOut_unitScript u).run_text, ?_, hused, ?_⟩
  · rw [← hname, outline]
    exact ⟨_, by simp only [List.append_assoc]; rfl⟩
  · rw [CompilationUnit.generatedNames, List.forall_mem_cons, hname]
    refine and_iff_left fun name hmem => ?_
    obtain ⟨used, hfilter, rfl⟩ := List.mem_map.mp hmem
    obtain ⟨hmem, hpath⟩ := List.mem_filter.mp hfilter
    exact hused used hmem hpath

/-- A document that uses a unit of the project and a system unit with a reserved name. -/
def reservingDocument : Document :=
  ⟨[⟨"./lib/beginner.ts"⟩, ⟨"@delphi/types"⟩], [], []⟩

/-- A name that only starts with a reserved word is none, and system units may have reserved
names. -/
theorem generate_reserves_imports_beginner :
    ∃ g, generate (.ofRoot ⟨"in"⟩) ⟨"Main", ⟨"main.ts"⟩, false⟩ reservingDocument = .ok g ∧
      (draftUnit (.ofRoot ⟨"in"⟩) ⟨"Main", ⟨"main.ts"⟩, false⟩
          reservingDocument).1.unit.usedUnits =
        [⟨"Beginner", some "lib/beginner.pas"⟩, ⟨"Types", none⟩] ∧
      ¬ IsReserved (.ofRoot ⟨"in"⟩) "Beginner" ∧ IsReserved (.ofRoot ⟨"in"⟩) "Types" := by
  have hgenerated : generate (.ofRoot ⟨"in"⟩) ⟨"Main", ⟨"main.ts"⟩, false⟩ reservingDocument =
      .ok (.ofDraft (.ofRoot ⟨"in"⟩)
        (draftUnit (.ofRoot ⟨"in"⟩) ⟨"Main", ⟨"main.ts"⟩, false⟩ reservingDocument).1) :=
    generate_eq_ok_iff.mpr ⟨by decide, rfl⟩
  obtain ⟨-, -, hused, -⟩ := generate_reserves_imports hgenerated
  exact ⟨_, hgenerated, by decide, hused ⟨"Beginner", some "lib/beginner.pas"⟩ (by decide) rfl,
    "types", by decide, by decide⟩

/-- **A generated file whose unit has a reserved name**: the name in a header is compared with no
reserved words. -/
theorem generate_reserved_header :
    ¬ ∀ (settings : Settings) (request : Request) (document : Document) (g : GeneratedFile),
      generate settings request document = .ok g →
        ∀ name ∈ (draftUnit settings request document).1.unit.generatedNames,
          ¬ IsReserved settings name := by
  intro hall
  have hgenerated : generate (.ofRoot ⟨"in"⟩) ⟨"begin", ⟨"begin.ts"⟩, false⟩ ⟨[], [], []⟩ =
      .ok (.ofDraft (.ofRoot ⟨"in"⟩)
        (draftUnit (.ofRoot ⟨"in"⟩) ⟨"begin", ⟨"begin.ts"⟩, false⟩ ⟨[], [], []⟩).1) :=
    generate_eq_ok_iff.mpr ⟨by decide, rfl⟩
  exact hall _ _ _ _ hgenerated "begin" (by decide) ⟨"begin", by decide, by decide⟩

end DelphiUnits

import DelphiUnits.Proofs.GeneratedFile.Registries
import DelphiUnits.Proofs.GeneratedFile.Statements

/-!
# The variables of a block

Pascal declares the variables of a block in front of it, so the declarations among its statements
are collected there. Only the outermost statements count: what is declared inside another statement
is lost with it. Of a name that is declared more than once **the first declaration** decides
everything, its place in the section, its type, and whether there is something to warn of. So a
variable that is first declared without a type stays untyped, whatever follows.

The collecting loop is a map that takes a key once. It comes down to the list of all declarations
without those that repeat a name, and the section and the warnings are read off that list.

## Main results

* `localVariables_eq`: the loop collects the first declaration of each name;
* `mem_firstDeclarations_iff`: which declarations these are;
* `firstDeclarations_leave_out`: other statements do not matter, with all that is inside them;
* `blockScript_declares_variables`: the section and the warnings of every block.
-/

namespace DelphiUnits.Pascal

open Layout (LaysOut Line)
open Source (Statement Variable)

/-! ### First declarations -/

/-- The variables that the outermost statements of a block declare, one after the other. -/
def outermostDeclarations (statements : List Statement) : List Variable :=
  statements.flatMap localVariables.declared

/-- **The first declarations of a block**: all variables but those that repeat a name. -/
def firstDeclarations (statements : List Statement) : List Variable :=
  (outermostDeclarations statements).eraseDupsBy fun v w => v.name = w.name

/-- A statement declares a variable exactly if it is a declaration that has it. -/
theorem mem_declared_iff {s : Statement} {v : Variable} :
    v ∈ localVariables.declared s ↔ ∃ declarations, s = .declare declarations ∧ v ∈ declarations := by
  cases s with
  | declare declarations => simp [localVariables.declared]
  | evaluate | conditional | whileLoop | forLoop | returning | block | unsupported =>
      simp [localVariables.declared]

/-- A variable is declared in a block exactly if one of its outermost statements is a declaration
that has it. -/
theorem mem_outermostDeclarations_iff {statements : List Statement} {v : Variable} :
    v ∈ outermostDeclarations statements ↔
      ∃ declarations, .declare declarations ∈ statements ∧ v ∈ declarations := by
  simp only [outermostDeclarations, List.mem_flatMap, mem_declared_iff]
  constructor
  · rintro ⟨s, hs, declarations, rfl, hv⟩
    exact ⟨declarations, hs, hv⟩
  · rintro ⟨declarations, hs, hv⟩
    exact ⟨_, hs, declarations, rfl, hv⟩

/-- The first declarations as a list that takes each name once. -/
theorem firstDeclarations_eq (statements : List Statement) :
    firstDeclarations statements = addAll Variable.name [] (outermostDeclarations statements) :=
  (addAll_nil_eq_eraseDupsBy Variable.name _).symm

/-- **A declaration is a first one** exactly if no declaration before it has its name. -/
theorem mem_firstDeclarations_iff {statements : List Statement} {v : Variable} :
    v ∈ firstDeclarations statements ↔
      ∃ before after, outermostDeclarations statements = before ++ v :: after ∧
        v.name ∉ before.map Variable.name := by
  rw [firstDeclarations_eq, mem_addAll_iff]

/-- The names of the first declarations are all names, each where it comes first. -/
theorem map_name_firstDeclarations (statements : List Statement) :
    (firstDeclarations statements).map Variable.name
      = ((outermostDeclarations statements).map Variable.name).eraseDups := by
  rw [firstDeclarations_eq, ← addAll_id, addAll_map]
  rfl

/-- There are first declarations exactly if anything is declared at all. -/
theorem firstDeclarations_ne_nil_iff {statements : List Statement} :
    firstDeclarations statements ≠ [] ↔
      ∃ declarations, .declare declarations ∈ statements ∧ declarations ≠ [] := by
  constructor
  · intro h
    obtain ⟨v, hv⟩ := List.exists_mem_of_ne_nil _ h
    rw [firstDeclarations_eq] at hv
    obtain ⟨declarations, hs, hmem⟩ := mem_outermostDeclarations_iff.mp (mem_of_mem_addAll hv)
    exact ⟨declarations, hs, List.ne_nil_of_mem hmem⟩
  · rintro ⟨declarations, hs, hne⟩ hnil
    obtain ⟨v, hv⟩ := List.exists_mem_of_ne_nil _ hne
    have hname : v.name ∈ (firstDeclarations statements).map Variable.name := by
      rw [firstDeclarations_eq, mem_map_addAll_iff]
      exact List.mem_map_of_mem (mem_outermostDeclarations_iff.mpr ⟨declarations, hs, hv⟩)
    rw [hnil] at hname
    cases hname

/-- **Statements that are no declarations do not matter**, and neither does anything inside them. -/
theorem firstDeclarations_leave_out {s : Statement} (hs : s.kind ≠ .declare)
    (before after : List Statement) :
    firstDeclarations (before ++ s :: after) = firstDeclarations (before ++ after) := by
  have hnone : localVariables.declared s = [] := by
    refine List.eq_nil_iff_forall_not_mem.mpr fun v hv => ?_
    obtain ⟨declarations, rfl, -⟩ := mem_declared_iff.mp hv
    exact hs rfl
  rw [firstDeclarations, firstDeclarations, outermostDeclarations, outermostDeclarations,
    List.flatMap_append, List.flatMap_cons, hnone, List.nil_append, List.flatMap_append]

/-! ### The collecting loop -/

/-- **The loop collects the first declarations**, each with its type. -/
theorem localVariables_eq (statements : List Statement) :
    localVariables statements = (firstDeclarations statements).map fun v => (v.name, v.type) := by
  have hloop : localVariables statements
      = addAll Prod.fst [] ((outermostDeclarations statements).map fun v => (v.name, v.type)) := by
    rw [addAll, List.foldl_map]
    rfl
  rw [hloop, addAll_map, firstDeclarations_eq]

/-! ### Blocks -/

/-- The variable section of a block with its first declarations, from a level on. -/
def sectionLines (level : Nat) (declared : List Variable) : List Line :=
  if declared.isEmpty then []
  else
    ⟨level, "var"⟩ :: declared.map fun v =>
      ⟨level + 1, v.name ++ ": " ++ v.type.getD "Variant" ++ ";"⟩

/-- The variables of a block are laid out as its first declarations. -/
theorem lines_variableOutline (place : BlockPlace) (statements : List Statement) :
    OutlineLine.lines (variableOutline place (localVariables statements))
      = sectionLines place.depth (firstDeclarations statements) := by
  rw [variableOutline, sectionLines, localVariables_eq, List.isEmpty_map]
  split
  · rfl
  · rw [OutlineLine.lines_cons, OutlineLine.lines, List.map_map, List.map_map]
    rfl

/-- The warnings of a block are those about its untyped first declarations. -/
theorem untyped_localVariables (location : String) (statements : List Statement) :
    ((localVariables statements).filter (·.2.isNone)).map (fun v => Block.untyped location v.1)
      = ((firstDeclarations statements).filter (·.type.isNone)).map fun v =>
        Block.untyped location v.name := by
  rw [localVariables_eq, List.filter_map, List.map_map]
  rfl

/-- **The variables of every block.** Its text is a variable section, `begin`, its statements and
what closes it. The section has one line for each first declaration, with the type that this one
has, or `Variant` if it has none; it is there exactly if an outermost statement declares something.
What is said about the block are one warning for each untyped first declaration, in the order of the
section, and then informations only. The first declarations have every name once, in the order in
which the names come first, and statements that are no declarations do not matter for them. -/
theorem blockScript_declares_variables (place : BlockPlace) (location close : String)
    (statements : List Statement) :
    LaysOut place.depth (blockScript statements close)
      (sectionLines place.depth (firstDeclarations statements) ++
        Line.mk place.depth "begin" ::
          (statements.filterMap statementText?).map (Line.mk (place.depth + 1)) ++
        [Line.mk place.depth close]) ∧
    (firstDeclarations statements ≠ [] ↔
      ∃ declarations, .declare declarations ∈ statements ∧ declarations ≠ []) ∧
    (∃ skipped : List Diagnostic, blockDiagnostics location statements
        = ((firstDeclarations statements).filter (·.type.isNone)).map (fun v =>
          ⟨.warning, "implementation", "'" ++ v.name ++ "' has no type and is declared Variant",
            some location⟩) ++ skipped ∧
      ∀ d ∈ skipped, d.severity = .info) ∧
    (firstDeclarations statements).map Variable.name
      = ((outermostDeclarations statements).map Variable.name).eraseDups ∧
    (∀ v, v ∈ firstDeclarations statements ↔
      ∃ before after, outermostDeclarations statements = before ++ v :: after ∧
        v.name ∉ before.map Variable.name) ∧
    (∀ v, v ∈ outermostDeclarations statements ↔
      ∃ declarations, .declare declarations ∈ statements ∧ v ∈ declarations) ∧
    (∀ before s after, statements = before ++ s :: after → s.kind ≠ .declare →
      firstDeclarations statements = firstDeclarations (before ++ after)) := by
  refine ⟨?_, firstDeclarations_ne_nil_iff, ?_, map_name_firstDeclarations statements,
    fun v => mem_firstDeclarations_iff, fun v => mem_outermostDeclarations_iff, ?_⟩
  · have hlayout := laysOut_blockScript place statements close
    rw [blockOutline, OutlineLine.lines_append, OutlineLine.lines_append, OutlineLine.lines_cons,
      lines_variableOutline, OutlineLine.lines, List.map_map] at hlayout
    exact hlayout
  · refine ⟨(statements.map outcome).filterMap (Block.skip? location), ?_, fun d hd => ?_⟩
    · have hsaid := Block.diagnostics_eq ⟨place, location, statements, close⟩
      rw [Block.diagnostics, untyped_localVariables] at hsaid
      exact hsaid.symm
    · obtain ⟨o, -, ho⟩ := List.mem_filterMap.mp hd
      cases o with
      | skipped kind =>
          obtain rfl := Option.some.inj ho
          rfl
      | declared | line => cases ho
  · rintro before s after rfl hs
    exact firstDeclarations_leave_out hs before after

end DelphiUnits.Pascal

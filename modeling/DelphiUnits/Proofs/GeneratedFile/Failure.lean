import DelphiUnits.GeneratedFile
import DelphiUnits.Proofs.Pascal.Import

/-!
# When no file is generated

A document can fail to become a file for two reasons only. The main file of a project may have
no default export, and this is looked at before anything else. Or an import may be **refused**:
it does not start with a system prefix, and leads to nothing or to a name that is reserved. Of
several refused imports the first one decides.

What makes a document fail is said here without the stages that generate a file, as the rules
`Refused` and `Fails`. The stages then fail by these rules and by no others, so the contents of
functions and classes never matter, and neither does the indentation.

## Main results

* `Pascal.refusal?_eq_some_iff`: an import is refused exactly by the rules;
* `Draft.addImports_snd`: the stage that adds imports ends with the first refusal;
* `generate_eq_error_iff_fails`: when a file fails to be generated, and with which error.
-/

namespace DelphiUnits

open Pascal (Draft DraftError)
open Source (Document)

namespace Pascal

variable {settings : Settings} {file : Path}

/-! ### Refused imports -/

/-- Whether an import starts with a system prefix. -/
def IsSystem (settings : Settings) (specifier : String) : Prop :=
  ∃ p ∈ settings.systemPrefixes, p.toList <+: specifier.toList

/-- **Why an import of a file is refused**, and with which error. A path that ends in no name
counts as one with an empty name. -/
inductive Refused (settings : Settings) (file : Path) (i : Source.Import) : DraftError → Prop
  /-- It leads to nothing below the input root. -/
  | outside : ¬ IsSystem settings i.specifier →
      resolveImport? settings.inputRoot i.specifier = none →
      Refused settings file i (.importOutsideRoot file i.specifier)
  /-- It leads to a name that is reserved, whatever its letter case. -/
  | reserved {relative : Path} {word : String} : ¬ IsSystem settings i.specifier →
      resolveImport? settings.inputRoot i.specifier = some relative →
      word ∈ settings.reservedWords.words →
      Text.sameIgnoringCase word (relative.fileName?.getD "") = true →
      Refused settings file i (.reservedWord file (relative.fileName?.getD ""))

/-- An import is none of a system unit exactly if it starts with no system prefix. -/
theorem systemPart?_eq_none_iff {specifier : String} :
    settings.systemPart? specifier = none ↔ ¬ IsSystem settings specifier := by
  rw [Settings.systemPart?, Option.map_eq_none_iff, List.find?_eq_none, IsSystem]
  simp only [List.isPrefixOf_iff_prefix, not_exists, not_and]

/-- The error that an import of a file ends the stage with, if it is refused. -/
def refusal? (settings : Settings) (file : Path) (i : Source.Import) : Option DraftError :=
  match classifyImport settings i.specifier with
  | .ok _ => none
  | .error e => some (.ofImport file i.specifier e)

/-- **An import is refused** exactly by the rules. -/
theorem refusal?_eq_some_iff {i : Source.Import} {e : DraftError} :
    refusal? settings file i = some e ↔ Refused settings file i e := by
  rw [refusal?, classifyImport]
  constructor
  · intro h
    cases hsystem : settings.systemPart? i.specifier with
    | some part =>
        rw [hsystem] at h
        by_cases hname : systemName part = "" <;> simp [hname] at h
    | none =>
        have hnot := systemPart?_eq_none_iff.mp hsystem
        cases hrelative : resolveImport? settings.inputRoot i.specifier with
        | none =>
            rw [hsystem, hrelative] at h
            obtain rfl := Option.some.inj h
            exact .outside hnot hrelative
        | some relative =>
            rw [hsystem, hrelative] at h
            by_cases hreserved : settings.reservedWords.contains (projectName relative) = true
            · obtain ⟨word, hword, hsame⟩ := List.any_eq_true.mp hreserved
              simp only [hreserved, if_true] at h
              obtain rfl := Option.some.inj h
              exact .reserved hnot hrelative hword hsame
            · simp [hreserved] at h
  · rintro (⟨hnot, hrelative⟩ | ⟨hnot, hrelative, hword, hsame⟩)
    · rw [systemPart?_eq_none_iff.mpr hnot, hrelative]
      rfl
    · next relative word =>
      have hreserved : settings.reservedWords.contains (projectName relative) = true :=
        List.any_eq_true.mpr ⟨word, hword, hsame⟩
      rw [systemPart?_eq_none_iff.mpr hnot, hrelative]
      simp only [hreserved, if_true]
      rfl

/-- An import that is not refused adds something, one that is ends the stage: **the first refusal
is the error of the stage**. -/
theorem Draft.addImports_snd (d : Draft) (imports : List Source.Import) :
    (d.addImports settings file imports).2 = imports.findSome? (refusal? settings file) := by
  fun_induction addImports settings file d imports with
  | case1 d => rfl
  | case2 d i rest imported himported ih =>
      have hnone : refusal? settings file i = none := by rw [refusal?, himported]
      rw [List.findSome?_cons, hnone, ih]
  | case3 d i rest e he =>
      have hsome : refusal? settings file i = some (.ofImport file i.specifier e) := by
        rw [refusal?, he]
      rw [List.findSome?_cons, hsome]

/-- An error of an import names the file that has the import. -/
theorem Refused.file? {i : Source.Import} {e : DraftError} (h : Refused settings file i e) :
    e.file? = some file := by
  cases h <;> rfl

end Pascal

open Pascal (Refused refusal? refusal?_eq_some_iff)

/-! ### Failing documents -/

/-- Whether a document is to be a program and has nothing to start it with. -/
def LacksEntryPoint (request : Request) (document : Document) : Prop :=
  request.isMain = true ∧ ∀ f ∈ document.functions, f.defaultExport = false

/-- **Why no file is generated**, and with which error. -/
inductive Fails (settings : Settings) (request : Request) (document : Document) :
    DraftError → Prop
  /-- The main file has no default export. What else it holds does not matter. -/
  | missingEntryPoint : LacksEntryPoint request document →
      Fails settings request document (.missingEntryPoint request.source)
  /-- An import is refused, and none before it is. -/
  | refusedImport {before after : List Source.Import} {i : Source.Import} {e : DraftError} :
      ¬ LacksEntryPoint request document → document.imports = before ++ i :: after →
      (∀ j ∈ before, ∀ e', ¬ Refused settings request.source j e') →
      Refused settings request.source i e → Fails settings request document e

/-- The error that stops a draft. -/
theorem draftUnit_snd (settings : Settings) (request : Request) (document : Document) :
    (draftUnit settings request document).2 =
      if request.isMain && !document.functions.any (·.defaultExport) then
        some (.missingEntryPoint request.source)
      else document.imports.findSome? (refusal? settings request.source) := by
  have hdefault : document.defaultExport?.isNone = !document.functions.any (·.defaultExport) := by
    rw [Bool.eq_iff_iff]
    simp [Document.defaultExport?]
  rw [draftUnit, hdefault]
  split
  · rfl
  · rw [← Draft.addImports_snd (Draft.empty request.unitKind request.name), Draft.addDocument]
    rcases (Draft.empty request.unitKind request.name).addImports settings request.source
      document.imports with ⟨d, _ | e⟩ <;> rfl

/-- The condition that is tested first. -/
theorem lacksEntryPoint_iff {request : Request} {document : Document} :
    LacksEntryPoint request document ↔
      (request.isMain && !document.functions.any (·.defaultExport)) = true := by
  simp only [LacksEntryPoint, Bool.and_eq_true, Bool.not_eq_true', List.any_eq_false,
    Bool.not_eq_true]

/-- A draft is stopped exactly by the rules. -/
theorem draftUnit_snd_eq_some_iff {settings : Settings} {request : Request} {document : Document}
    {e : DraftError} :
    (draftUnit settings request document).2 = some e ↔ Fails settings request document e := by
  rw [draftUnit_snd]
  constructor
  · intro h
    split at h
    · next hlacks =>
      obtain rfl := Option.some.inj h
      exact .missingEntryPoint (lacksEntryPoint_iff.mpr hlacks)
    · next hhas =>
      obtain ⟨before, i, after, himports, hi, hbefore⟩ := List.findSome?_eq_some_iff.mp h
      refine .refusedImport (hhas ∘ lacksEntryPoint_iff.mp) himports (fun j hj e' he' => ?_)
        (refusal?_eq_some_iff.mp hi)
      have hj' := hbefore j hj
      rw [refusal?_eq_some_iff.mpr he'] at hj'
      cases hj'
  · rintro (hlacks | ⟨hhas, himports, hbefore, hi⟩)
    · rw [if_pos (lacksEntryPoint_iff.mp hlacks)]
    · rw [if_neg (hhas ∘ lacksEntryPoint_iff.mpr)]
      refine List.findSome?_eq_some_iff.mpr
        ⟨_, _, _, himports, refusal?_eq_some_iff.mpr hi, fun j hj => ?_⟩
      refine Option.eq_none_iff_forall_ne_some.mpr fun e' he' => ?_
      exact hbefore j hj e' (refusal?_eq_some_iff.mp he')

/-- Generating a file fails with what stops its draft, and with nothing else. -/
theorem generate_eq_error_iff {settings : Settings} {request : Request} {document : Document}
    {e : DraftError} :
    generate settings request document = .error e ↔
      (draftUnit settings request document).2 = some e := by
  rw [generate]
  rcases draftUnit settings request document with ⟨d, _ | e'⟩ <;> simp

/-- An error names the source file that was asked for. -/
theorem Fails.file? {settings : Settings} {request : Request} {document : Document}
    {e : DraftError} (h : Fails settings request document e) : e.file? = some request.source := by
  cases h with
  | missingEntryPoint _ => rfl
  | refusedImport _ _ _ hi => exact hi.file?

/-- **When a file fails to be generated.** It fails with an error exactly if the rules give that
error, which then names the source file that was asked for; if they give none, a file is generated.
So the indentation does not matter, and of the functions and classes nothing but whether there is a
default export. -/
theorem generate_eq_error_iff_fails (settings : Settings) (request : Request)
    (document : Document) :
    (∀ e, generate settings request document = .error e ↔ Fails settings request document e) ∧
    (∀ e, generate settings request document = .error e → e.file? = some request.source) ∧
    ((∃ g, generate settings request document = .ok g) ↔
      ∀ e, ¬ Fails settings request document e) ∧
    (∀ indent functions classes,
      ((∃ f ∈ functions, f.defaultExport = true) ↔
        ∃ f ∈ document.functions, f.defaultExport = true) →
      ∀ e, generate { settings with indent } request ⟨document.imports, functions, classes⟩ =
          .error e ↔
        generate settings request document = .error e) := by
  have hfails (e : DraftError) :
      generate settings request document = .error e ↔ Fails settings request document e :=
    generate_eq_error_iff.trans draftUnit_snd_eq_some_iff
  refine ⟨hfails, fun e he => ((hfails e).mp he).file?, ⟨?_, ?_⟩, ?_⟩
  · rintro ⟨g, hg⟩ e he
    rw [(hfails e).mpr he] at hg
    cases hg
  · intro hnever
    cases hresult : generate settings request document with
    | ok g => exact ⟨g, rfl⟩
    | error e => exact absurd ((hfails e).mp hresult) (hnever e)
  · intro indent functions classes hdefault e
    have hany : functions.any (·.defaultExport) = document.functions.any (·.defaultExport) := by
      rw [Bool.eq_iff_iff, List.any_eq_true, List.any_eq_true, hdefault]
    rw [generate_eq_error_iff, generate_eq_error_iff, draftUnit_snd, draftUnit_snd, hany]
    rfl

end DelphiUnits

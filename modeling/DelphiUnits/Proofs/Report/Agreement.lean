import DelphiUnits.Proofs.GeneratedFile.Draft
import DelphiUnits.Proofs.Project.Discovery
import DelphiUnits.Proofs.Report.Rebuild
import DelphiUnits.Report.Check
import DelphiUnits.Report.Explain

/-!
# What reports agree on

A check, a dry run, a build and an explanation each go through the entries of a project on their
own. They **tell the same story** about every entry. If no file can be generated, all of them say
so, with the same error. If one can, the check lists what there was to say about it, the dry run
shows its text, and the build brings it up to date or says that it could not be written. The dry run
and the build also show the messages of those diagnostics that are warnings, in their order.

The story is told entry by entry, so it also says that each entry is reported once and in its order.
Only the build changes anything on the way. What it reports of an entry still holds at its end,
since entries are settled once they have been built.

## Main results

* `Report.sameStory_of_settled`: reports on entries that are settled tell the same story;
* `Pascal.stage_of_mem_unitDiagnostics`, `stage_of_mem_draftUnit`: which diagnostics come from
  blocks;
* `Explain.generateEntry_eq`: an explanation is the draft that a file is generated from;
* `reports_agree`: what a check, a dry run, a build and explanations of a project agree on.
-/

namespace DelphiUnits

open FileSystem (IsTree)
open Project (FileOutcome)

namespace Report

variable {p : Project} {fs fs' : FileSystem}

/-! ### Splitting a list -/

/-- A list is **split** into two: each item is in exactly one of them, and their order stays. -/
inductive Splits {α : Type} : List α → List α → List α → Prop
  /-- There is nothing to split. -/
  | nil : Splits [] [] []
  /-- The first item goes into the first list. -/
  | left {x : α} {xs ys zs : List α} : Splits xs ys zs → Splits (x :: xs) (x :: ys) zs
  /-- The first item goes into the second list. -/
  | right {x : α} {xs ys zs : List α} : Splits xs ys zs → Splits (x :: xs) ys (x :: zs)

/-! ### The story of a project -/

/-- **The story of entries** in a file system `fs`, of which a build makes `fs'`: what a check and a
dry run say of them, with the failures of both, and what the build says. The warnings of a file are
the messages of those of its diagnostics that are warnings, in their order. -/
inductive SameStory (p : Project) (fs fs' : FileSystem) :
    List Entry → List Check.CheckedFile → List Build.BuiltFile → List Failure →
      List Build.BuiltFile → List Failure → Prop
  /-- There are no entries. -/
  | nil : SameStory p fs fs' [] [] [] [] [] []
  /-- No file can be generated: this is a failure of all three, with the same error. -/
  | failed {e : Entry} {error : Pascal.DraftError} {entries : List Entry}
      {checked : List Check.CheckedFile} {previewed built : List Build.BuiltFile}
      {failures buildFailures : List Failure} :
      p.generateEntry fs e = .error error →
      SameStory p fs fs' entries checked previewed failures built buildFailures →
      SameStory p fs fs' (e :: entries) checked previewed
        (⟨e.label, error.problem.summary⟩ :: failures) built
        (⟨e.label, error.problem.summary⟩ :: buildFailures)
  /-- A file is generated and brought up to date: it holds the text that the dry run shows. -/
  | built {e : Entry} {g : GeneratedFile} {status : Build.Status} {entries : List Entry}
      {checked : List Check.CheckedFile} {previewed built : List Build.BuiltFile}
      {failures buildFailures : List Failure} :
      p.generateEntry fs e = .ok g → status = .written ∨ status = .unchanged →
      fs'.read? e.output = some g.content.toUTF8 →
      SameStory p fs fs' entries checked previewed failures built buildFailures →
      SameStory p fs fs' (e :: entries) (⟨e.label, g.diagnostics⟩ :: checked)
        (⟨e.label, e.output, .preview g.content,
          (g.diagnostics.filter (·.severity = .warning)).map (·.message)⟩ :: previewed)
        failures
        (⟨e.label, e.output, status,
          (g.diagnostics.filter (·.severity = .warning)).map (·.message)⟩ :: built)
        buildFailures
  /-- A file is generated and cannot be written: this is a failure of the build only. -/
  | unwritten {e : Entry} {g : GeneratedFile} {entries : List Entry}
      {checked : List Check.CheckedFile} {previewed built : List Build.BuiltFile}
      {failures buildFailures : List Failure} :
      p.generateEntry fs e = .ok g → (fs'.update e.output g.content).2 = .failed →
      SameStory p fs fs' entries checked previewed failures built buildFailures →
      SameStory p fs fs' (e :: entries) (⟨e.label, g.diagnostics⟩ :: checked)
        (⟨e.label, e.output, .preview g.content,
          (g.diagnostics.filter (·.severity = .warning)).map (·.message)⟩ :: previewed)
        failures built
        (⟨e.label, "failed to write '" ++ e.output.text ++ "'"⟩ :: buildFailures)

namespace SameStory

variable {entries : List Entry} {checked : List Check.CheckedFile}
  {previewed built : List Build.BuiltFile} {failures buildFailures : List Failure}

/-- Each entry is a file or a failure of a check. -/
theorem splits_checked (h : SameStory p fs fs' entries checked previewed failures built
    buildFailures) :
    Splits (entries.map Entry.label) (checked.map (·.source)) (failures.map (·.source)) := by
  induction h with
  | nil => exact .nil
  | failed _ _ ih => exact .right ih
  | built _ _ _ _ ih => exact .left ih
  | unwritten _ _ _ ih => exact .left ih

/-- Each entry is a file or a failure of a build. -/
theorem splits_built (h : SameStory p fs fs' entries checked previewed failures built
    buildFailures) :
    Splits (entries.map Entry.label) (built.map (·.source)) (buildFailures.map (·.source)) := by
  induction h with
  | nil => exact .nil
  | failed _ _ ih => exact .right ih
  | built _ _ _ _ ih => exact .left ih
  | unwritten _ _ _ ih => exact .right ih

/-- A check and a dry run have the same files, with the same warnings. -/
theorem map_previewed (h : SameStory p fs fs' entries checked previewed failures built
    buildFailures) :
    previewed.map (fun file => (file.source, file.warnings)) =
      checked.map (fun file =>
        (file.source, (file.diagnostics.filter (·.severity = .warning)).map (·.message))) := by
  induction h with
  | nil => rfl
  | failed _ _ ih => exact ih
  | built _ _ _ _ ih => rw [List.map_cons, List.map_cons, ih]
  | unwritten _ _ _ ih => rw [List.map_cons, List.map_cons, ih]

/-- A file that was built holds the text that the dry run shows, and has the warnings of the
check. -/
theorem exists_of_mem_built (h : SameStory p fs fs' entries checked previewed failures built
    buildFailures) {file : Build.BuiltFile} (hfile : file ∈ built) :
    ∃ shown ∈ previewed, ∃ found ∈ checked, ∃ content,
      shown.output = file.output ∧ shown.status = .preview content ∧
      fs'.read? file.output = some content.toUTF8 ∧
      found.source = file.source ∧
      file.warnings = (found.diagnostics.filter (·.severity = .warning)).map (·.message) := by
  induction h with
  | nil => exact absurd hfile List.not_mem_nil
  | failed _ _ ih => exact ih hfile
  | built _ _ hread _ ih =>
      rcases List.mem_cons.mp hfile with rfl | hfile
      · exact ⟨_, List.mem_cons_self, _, List.mem_cons_self, _, rfl, rfl, hread, rfl, rfl⟩
      · obtain ⟨shown, hshown, found, hfound, hsame⟩ := ih hfile
        exact ⟨shown, List.mem_cons_of_mem _ hshown, found, List.mem_cons_of_mem _ hfound, hsame⟩
  | unwritten _ _ _ ih =>
      obtain ⟨shown, hshown, found, hfound, hsame⟩ := ih hfile
      exact ⟨shown, List.mem_cons_of_mem _ hshown, found, List.mem_cons_of_mem _ hfound, hsame⟩

/-- A build has the failures of a check, and others only where a file cannot be written. -/
theorem failures_sublist (h : SameStory p fs fs' entries checked previewed failures built
    buildFailures) :
    failures.Sublist buildFailures ∧ ∀ failure ∈ buildFailures, failure ∈ failures ∨
      ∃ e ∈ entries, ∃ g, p.generateEntry fs e = .ok g ∧
        (fs'.update e.output g.content).2 = .failed ∧ failure = .ofWrite e := by
  induction h with
  | nil => exact ⟨.slnil, fun _ hmem => absurd hmem List.not_mem_nil⟩
  | failed _ _ ih =>
      refine ⟨ih.1.cons_cons _, fun failure hmem => ?_⟩
      rcases List.mem_cons.mp hmem with rfl | hmem
      · exact .inl List.mem_cons_self
      · refine (ih.2 failure hmem).imp (List.mem_cons_of_mem _) ?_
        rintro ⟨e, he, hwrite⟩
        exact ⟨e, List.mem_cons_of_mem _ he, hwrite⟩
  | built _ _ _ _ ih =>
      refine ⟨ih.1, fun failure hmem => (ih.2 failure hmem).imp_right ?_⟩
      rintro ⟨e, he, hwrite⟩
      exact ⟨e, List.mem_cons_of_mem _ he, hwrite⟩
  | unwritten hg hfailed _ ih =>
      refine ⟨ih.1.cons _, fun failure hmem => ?_⟩
      rcases List.mem_cons.mp hmem with rfl | hmem
      · exact .inr ⟨_, List.mem_cons_self, _, hg, hfailed, rfl⟩
      · refine (ih.2 failure hmem).imp_right ?_
        rintro ⟨e, he, hwrite⟩
        exact ⟨e, List.mem_cons_of_mem _ he, hwrite⟩

end SameStory

/-! ### Reports -/

/-- An entry with what becomes of it. -/
def outcomeOf (p : Project) (fs : FileSystem) (e : Entry) : FileOutcome :=
  ⟨e, p.generateEntry fs e⟩

/-- **Reports on entries that are settled** tell the same story. -/
theorem sameStory_of_settled (htree : fs'.IsTree) {entries : List Entry}
    {results : List (Except Failure Build.BuiltFile)}
    (hfiles : ∀ e ∈ entries, Build.HasFile (outcomeOf p fs e))
    (h : List.Forall₂ (Build.Settled fs') (entries.map (outcomeOf p fs)) results) :
    SameStory p fs fs' entries
      (((entries.map (outcomeOf p fs)).map Check.checkFile).filterMap Except.toOption)
      (((entries.map (outcomeOf p fs)).map Build.previewOf).filterMap Except.toOption)
      (((entries.map (outcomeOf p fs)).map Check.checkFile).filterMap Failure.ofResult?)
      (results.filterMap Except.toOption) (results.filterMap Failure.ofResult?) := by
  induction entries generalizing results with
  | nil =>
      cases h
      exact .nil
  | cons e rest ih =>
      rw [List.map_cons, List.forall₂_cons_left_iff] at h
      obtain ⟨r, results, hsettled, hrest, rfl⟩ := h
      have hstory := ih (fun e' he' => hfiles e' (List.mem_cons_of_mem _ he')) hrest
      rw [List.map_cons, List.map_cons, List.map_cons, Check.checkFile, Build.previewOf]
      rcases hsettled.cases htree (hfiles e List.mem_cons_self) with
        ⟨error, hg, rfl⟩ | ⟨g, status, hg, hstatus, rfl, hread⟩ | ⟨g, hg, rfl, hwrite⟩ <;> rw [hg]
      · exact .failed hg hstory
      · exact .built hg hstatus hread hstory
      · exact .unwritten hg hwrite hstory

/-- A dry run has the failures of a check. -/
theorem filterMap_previewOf (os : List FileOutcome) :
    (os.map Build.previewOf).filterMap Failure.ofResult?
      = (os.map Check.checkFile).filterMap Failure.ofResult? := by
  rw [List.filterMap_map, List.filterMap_map]
  refine List.filterMap_congr fun o _ => ?_
  rw [Function.comp_apply, Function.comp_apply, Build.previewOf, Check.checkFile]
  rcases o.result with error | g <;> rfl

/-- **The reports on a project whose input root can be listed** tell the same story. -/
theorem exists_sameStory (htree : fs.IsTree) {entries : List Entry}
    (h : p.discover? fs = some entries) (manifest : Path) :
    ∃ (checked : Check.Report) (preview built : Build.Report) (fs' : FileSystem),
      Check.run? p manifest fs = some checked ∧ Build.run? p true fs = some (fs, preview) ∧
      Build.run? p false fs = some (fs', built) ∧ preview.failures = checked.failures ∧
      SameStory p fs fs' entries checked.files preview.files checked.failures built.files
        built.failures := by
  have houtcomes : p.generateAll? fs
      = some ⟨entries.map (outcomeOf p fs), p.missingMain? entries⟩ := by
    rw [Project.generateAll?, h]
    rfl
  obtain ⟨root, -, hdocuments⟩ := (Project.generateAll?_eq_some_iff htree).mp houtcomes
  have hfiles := Project.hasFile_of_mem htree p root
  have hdistinct := Project.distinctOutputs htree p root
  rw [← hdocuments] at hfiles hdistinct
  have hsettled := Build.buildFiles_settled htree hfiles hdistinct (.refl _) (by simp)
  have hstory := sameStory_of_settled ((Build.buildFiles_grows htree hfiles).isTree htree)
    (fun e he => hfiles _ (List.mem_map_of_mem he)) hsettled
  have hcheck : Check.run? p manifest fs = some ⟨manifest,
      ((entries.map (outcomeOf p fs)).map Check.checkFile).filterMap Except.toOption,
      ((entries.map (outcomeOf p fs)).map Check.checkFile).filterMap Failure.ofResult?,
      p.missingMain? entries⟩ := by
    rw [Check.run?, houtcomes]
    rfl
  have hpreview := Build.run?_eq houtcomes true
  rw [Build.buildFiles_dryRun_eq] at hpreview
  exact ⟨_, _, _, _, hcheck, hpreview, Build.run?_eq houtcomes false, filterMap_previewOf _, hstory⟩

end Report

/-! ### Explanations -/

namespace Pascal

variable {d : Diagnostic}

/-- What there is to say about a block comes from blocks. -/
theorem stage_of_mem_blockDiagnostics {location : String} {statements : List Source.Statement}
    (h : d ∈ blockDiagnostics location statements) : d.stage = blockStage := by
  rcases List.mem_append.mp h with h | h
  · obtain ⟨⟨name, type⟩, -, h⟩ := List.mem_filterMap.mp h
    cases type with
    | none => exact Option.some.inj h ▸ rfl
    | some _ => cases h
  · obtain ⟨s, -, h⟩ := List.mem_filterMap.mp h
    rw [skipInfo?] at h
    split at h
    · exact Option.some.inj h ▸ rfl
    · cases h

/-- **What there is to say when a unit is rendered** comes from blocks. -/
theorem stage_of_mem_unitDiagnostics {u : CompilationUnit} (h : d ∈ unitDiagnostics u) :
    d.stage = blockStage := by
  rcases List.mem_append.mp h with h | h
  · obtain ⟨r, -, h⟩ := List.mem_flatMap.mp h
    exact stage_of_mem_blockDiagnostics h
  · split at h
    · exact stage_of_mem_blockDiagnostics h
    · exact absurd h List.not_mem_nil

/-- What there is to say about an import comes from imports. -/
theorem stage_of_importWarning? {settings : Settings} {i : Source.Import}
    (h : importWarning? settings i = some d) : d.stage = "imports" := by
  rw [importWarning?] at h
  split at h
  · split at h
    · exact Option.some.inj h ▸ rfl
    · cases h
  · cases h

/-- What there is to say about a function comes from functions. -/
theorem stage_of_functionDiagnostic? {isProgram : Bool} {f : Source.Function}
    (h : Draft.functionDiagnostic? isProgram f = some d) : d.stage = Stage.functions.name := by
  rw [Draft.functionDiagnostic?] at h
  split at h
  · split at h
    · split at h
      · cases h
      · exact Option.some.inj h ▸ rfl
    · exact Option.some.inj h ▸ rfl
  · split at h
    · exact Option.some.inj h ▸ rfl
    · cases h

end Pascal

/-- **What there is to say while a unit is drafted** does not come from blocks. -/
theorem stage_of_mem_draftUnit {settings : Settings} {request : Request}
    {document : Source.Document} (h : (draftUnit settings request document).2 = none)
    {d : Diagnostic} (hd : d ∈ (draftUnit settings request document).1.diagnostics) :
    d.stage ≠ Pascal.blockStage := by
  rw [draftUnit_eq h] at hd
  rcases List.mem_append.mp hd with hd | hd
  · obtain ⟨i, -, hi⟩ := List.mem_filterMap.mp hd
    rw [Pascal.stage_of_importWarning? hi]
    decide
  · obtain ⟨f, -, hf⟩ := List.mem_filterMap.mp hd
    rw [Pascal.stage_of_functionDiagnostic? hf]
    decide

namespace Explain

variable {p : Project} {fs : FileSystem} {e : Entry}

/-- **A file is generated from the draft that an explanation shows**, and fails where it does. -/
theorem generateEntry_eq (p : Project) (fs : FileSystem) (e : Entry) :
    p.generateEntry fs e = (run p fs e).map fun report => .ofDraft p.settings report.draft := by
  rw [Project.generateEntry, run]
  rcases Project.readDocument fs e with error | document
  · rfl
  · simp only [generate]
    rcases draftUnit p.settings e.request document with ⟨draft, _ | error⟩ <;> rfl

/-- An explanation fails exactly if its file cannot be generated, with the same error. -/
theorem run_eq_error_iff {error : Pascal.DraftError} :
    run p fs e = .error error ↔ p.generateEntry fs e = .error error := by
  rw [generateEntry_eq]
  rcases run p fs e with error' | report <;> simp [Except.map]

/-- An explanation shows the finished draft of a document. -/
theorem exists_of_run_eq_ok {report : Report} (h : run p fs e = .ok report) :
    report.entry = e ∧
      ∃ document, draftUnit p.settings e.request document = (report.draft, none) := by
  rw [run] at h
  split at h
  · cases h
  next document _ =>
  split at h
  next => cases h
  next draft hdraft =>
  obtain rfl := Except.ok.inj h
  exact ⟨rfl, document, hdraft⟩

/-- **What an explanation and the generated file have in common.** The file has something more to
say only about blocks, of which the explanation says nothing. -/
theorem exists_generated {report : Report} (h : run p fs e = .ok report) :
    report.entry = e ∧ ∃ g rest, p.generateEntry fs e = .ok g ∧
      g.kind = report.draft.unit.kind ∧ g.name = report.draft.unit.name ∧
      g.diagnostics = report.draft.diagnostics ++ rest ∧
      (∀ d ∈ report.draft.diagnostics, d.stage ≠ Pascal.blockStage) ∧
      ∀ d ∈ rest, d.stage = Pascal.blockStage := by
  obtain ⟨hentry, document, hdraft⟩ := exists_of_run_eq_ok h
  refine ⟨hentry, .ofDraft p.settings report.draft, Pascal.unitDiagnostics report.draft.unit, ?_,
    rfl, rfl, rfl, fun d hd => ?_, fun d => Pascal.stage_of_mem_unitDiagnostics⟩
  · rw [generateEntry_eq, h]
    rfl
  · refine stage_of_mem_draftUnit (congrArg Prod.snd hdraft) ?_
    rw [hdraft]
    exact hd

end Explain

/-! ### All of them -/

open Report (SameStory Splits)

/-- **What a check, a dry run, a build and explanations of a project agree on.** If the input root
of a tree can be listed, the three that report on all entries tell the same story. So each entry is
a file or a failure, in the order of discovery; a check and a dry run have the same files and
failures; a build has further failures only where a file cannot be written; what it leaves on disk
is what the dry run shows; and the warnings of both are those that the check lists. An explanation
of any entry fails exactly if its file cannot be generated, with the same error. If it does not fail,
it has the kind and the name of that file, and all that there is to say about it, except what comes
from blocks. -/
theorem reports_agree {fs : FileSystem} (htree : fs.IsTree) (p : Project) {entries : List Entry}
    (h : p.discover? fs = some entries) (manifest : Path) :
    (∃ (checked : Check.Report) (preview built : Build.Report) (fs' : FileSystem),
      Check.run? p manifest fs = some checked ∧ Build.run? p true fs = some (fs, preview) ∧
      Build.run? p false fs = some (fs', built) ∧
      SameStory p fs fs' entries checked.files preview.files checked.failures built.files
        built.failures ∧
      Splits (entries.map Entry.label) (checked.files.map (·.source))
        (checked.failures.map (·.source)) ∧
      Splits (entries.map Entry.label) (built.files.map (·.source))
        (built.failures.map (·.source)) ∧
      preview.failures = checked.failures ∧
      preview.files.map (fun file => (file.source, file.warnings))
        = checked.files.map (fun file =>
          (file.source, (file.diagnostics.filter (·.severity = .warning)).map (·.message))) ∧
      checked.failures.Sublist built.failures ∧
      (∀ failure ∈ built.failures, failure ∈ checked.failures ∨
        ∃ e ∈ entries, ∃ g, p.generateEntry fs e = .ok g ∧
          (fs'.update e.output g.content).2 = .failed ∧ failure = .ofWrite e) ∧
      ∀ file ∈ built.files, ∃ shown ∈ preview.files, ∃ found ∈ checked.files, ∃ content,
        shown.output = file.output ∧ shown.status = .preview content ∧
        fs'.read? file.output = some content.toUTF8 ∧
        found.source = file.source ∧
        file.warnings = (found.diagnostics.filter (·.severity = .warning)).map (·.message)) ∧
    ∀ e : Entry,
      (∀ error, Explain.run p fs e = .error error ↔ p.generateEntry fs e = .error error) ∧
      ∀ report, Explain.run p fs e = .ok report →
        report.entry = e ∧ ∃ g rest, p.generateEntry fs e = .ok g ∧
          g.kind = report.draft.unit.kind ∧ g.name = report.draft.unit.name ∧
          g.diagnostics = report.draft.diagnostics ++ rest ∧
          (∀ d ∈ report.draft.diagnostics, d.stage ≠ Pascal.blockStage) ∧
          ∀ d ∈ rest, d.stage = Pascal.blockStage := by
  obtain ⟨checked, preview, built, fs', hchecked, hpreview, hbuilt, hfailures, hstory⟩ :=
    Report.exists_sameStory htree h manifest
  obtain ⟨hsublist, hwrites⟩ := hstory.failures_sublist
  refine ⟨⟨checked, preview, built, fs', hchecked, hpreview, hbuilt, hstory, hstory.splits_checked,
    hstory.splits_built, hfailures, hstory.map_previewed, hsublist, hwrites,
    fun file => hstory.exists_of_mem_built⟩, fun e => ⟨fun error => Explain.run_eq_error_iff,
    fun report => Explain.exists_generated⟩⟩

namespace Report

/-! ### A project with a warning -/

/-- A document that imports the beginning of a system import, with nothing behind it. -/
def bareImport : String :=
  "\x7b\"imports\":[\x7b\"specifier\":\"@delphi/\"\x7d]\x7d"

/-- A tree with that document and an empty one beside it. -/
def warnedTree : FileSystem where
  nodes := [(["in"], .directory), (["in", "a.ast.json"], .file bareImport.toUTF8),
    (["in", "b.ast.json"], .file "{}".toUTF8)]
  workingDirectory := []

/-- A project whose main file is the empty document. -/
def warnedProject : Project :=
  ⟨.ofRoot ⟨"in"⟩, ⟨"out"⟩, some "b.ts"⟩

/-- The entry with the import. -/
def warnedEntry : Entry :=
  ⟨⟨"in/a.ast.json"⟩, ⟨"a.ts"⟩, ⟨"out/a.pas"⟩, "a", false⟩

/-- The entry of the main file. -/
def refusedEntry : Entry :=
  ⟨⟨"in/b.ast.json"⟩, ⟨"b.ts"⟩, ⟨"out/b.pas"⟩, "b", true⟩

/-- What there is to say about the import. -/
def bareImportMessage : String :=
  "import '@delphi/' names no unit and was skipped"

/-- The file with the import. -/
def warnedFile : GeneratedFile :=
  ⟨.library, "a", "unit a;\n\ninterface\n\nend.\n", [.warning "imports" bareImportMessage]⟩

/-- The entries of the project. -/
theorem discover?_warnedTree :
    warnedProject.discover? warnedTree = some [warnedEntry, refusedEntry] := by
  have htree : warnedTree.IsTree := by decide
  have hroot : FileSystem.IsListable warnedTree warnedProject.inputRoot ["in"] :=
    (htree.isListable_iff (q := ["in"]) (by decide)).mpr ⟨rfl, by decide, by decide⟩
  have hfiles : warnedTree.filesBelow ["in"] = [["a.ast.json"], ["b.ast.json"]] :=
    FileSystem.filesBelow_of_pairwise (by decide) (by decide)
  rw [Project.discover?_of_isListable htree hroot, hfiles]
  decide

/-- A file is generated for the import, with a warning. -/
theorem generateEntry_warnedEntry :
    warnedProject.generateEntry warnedTree warnedEntry = .ok warnedFile := by
  have hread : warnedTree.read? warnedEntry.document = some bareImport.toUTF8 := by decide
  have hparse : Source.Document.parse bareImport = .ok ⟨[⟨"@delphi/"⟩], [], []⟩ := by cbv
  rw [Project.generateEntry_eq, hread, Project.resultOfContent_of_parse hparse]
  rfl

/-- The main file has no default export. -/
theorem generateEntry_refusedEntry :
    warnedProject.generateEntry warnedTree refusedEntry
      = .error (.missingEntryPoint ⟨"b.ts"⟩) := by
  have hread : warnedTree.read? refusedEntry.document = some "{}".toUTF8 := by decide
  have hparse : Source.Document.parse "{}" = .ok ⟨[], [], []⟩ := by cbv
  rw [Project.generateEntry_eq, hread, Project.resultOfContent_of_parse hparse]
  rfl

/-- A build writes the one file. -/
theorem exists_run?_warnedTree :
    ∃ fs' built, Build.run? warnedProject false warnedTree = some (fs', built) ∧
      built.files = [⟨"a.ts", ⟨"out/a.pas"⟩, .written, [bareImportMessage]⟩] := by
  have houtcomes : warnedProject.generateAll? warnedTree
      = some ⟨[⟨warnedEntry, .ok warnedFile⟩,
          ⟨refusedEntry, .error (.missingEntryPoint ⟨"b.ts"⟩)⟩], none⟩ := by
    rw [Project.generateAll?, discover?_warnedTree, Option.map_some, List.map_cons, List.map_cons,
      List.map_nil, generateEntry_warnedEntry, generateEntry_refusedEntry]
    rfl
  exact ⟨_, _, Build.run?_eq houtcomes false, rfl⟩

/-- A file with a warning beside a main file without a default export. -/
theorem reports_agree_warned :
    warnedTree.IsTree ∧ warnedProject.discover? warnedTree = some [warnedEntry, refusedEntry] ∧
      ∃ (checked : Check.Report) (preview built : Build.Report) (fs' : FileSystem),
        Check.run? warnedProject ⟨"delphi.toml"⟩ warnedTree = some checked ∧
        Build.run? warnedProject true warnedTree = some (warnedTree, preview) ∧
        Build.run? warnedProject false warnedTree = some (fs', built) ∧
        built.files = [⟨"a.ts", ⟨"out/a.pas"⟩, .written, [bareImportMessage]⟩] ∧
        Splits ["a.ts", "b.ts"] (built.files.map (·.source)) (built.failures.map (·.source)) ∧
        (∃ shown ∈ preview.files, ∃ found ∈ checked.files, ∃ content,
          shown.output = ⟨"out/a.pas"⟩ ∧ shown.status = .preview content ∧
          fs'.read? ⟨"out/a.pas"⟩ = some content.toUTF8 ∧ found.source = "a.ts" ∧
          [bareImportMessage]
            = (found.diagnostics.filter (·.severity = .warning)).map (·.message)) ∧
        Explain.run warnedProject warnedTree refusedEntry
          = .error (.missingEntryPoint ⟨"b.ts"⟩) := by
  have htree : warnedTree.IsTree := by decide
  obtain ⟨⟨checked, preview, built, fs', hchecked, hpreview, hbuilt, -, -, hsplits, -, -, -, -,
    hsame⟩, hexplained⟩ :=
    reports_agree htree warnedProject discover?_warnedTree ⟨"delphi.toml"⟩
  obtain ⟨fs'', written, hrun, hfiles⟩ := exists_run?_warnedTree
  obtain ⟨rfl, rfl⟩ := Prod.mk.inj (Option.some.inj (hbuilt.symm.trans hrun))
  exact ⟨htree, discover?_warnedTree, checked, preview, built, fs', hchecked, hpreview, hbuilt,
    hfiles, hsplits, hsame _ (hfiles ▸ List.mem_cons_self),
    ((hexplained refusedEntry).1 _).mpr generateEntry_refusedEntry⟩

end Report

end DelphiUnits

import DelphiUnits.CommandLine.Run
import DelphiUnits.Proofs.Project.Documents
import DelphiUnits.Proofs.Report.Building

/-!
# Building a project again

A build brings the outputs of a project up to date and touches no other file, although they may lie
among its documents: no two entries have the same output, and no output is a document. A second build
therefore finds the same documents, changes nothing and reports the same, with all files unchanged.

There is one exception. A build makes directories for its outputs. If they lie below the input root,
and if the path of one of them from there is too long to be followed, the input root cannot be listed
any more, and the second build fails.

## Main results

* `run?_again`: what a build leaves behind, and what a second one does;
* `run?_blocked`: a build after which the project cannot be built any more.
-/

namespace DelphiUnits

open DelphiUnits.Path (IsName)
open FileSystem (IsTree Grows IsListable)

variable {p : Project} {fs fs' : FileSystem} {root : Place} {written : List Place}

namespace Project

/-! ### Outputs -/

/-- The generated file of a document is written at a place below that of the output root. -/
theorem target_output (htree : fs.IsTree) {d : DocumentFile} (h : d.IsBelow root fs) :
    fs.target (p.entryOf d).output
      = fs.target p.outputRoot ++ (d.directory ++ [d.stem ++ ".pas"]) := by
  have hname := h.isName_stem htree ".pas" (by decide) (by decide)
  refine fs.target_of_components (fun n hn => ?_) (components_output_entryOf htree h)
  rcases List.mem_append.mp hn with hn | hn
  · exact h.isName_directory htree n hn
  · obtain rfl := List.mem_singleton.mp hn
    exact hname

/-- Each entry has a file to write. -/
theorem hasFile_of_mem (htree : fs.IsTree) (p : Project) (root : Place) :
    ∀ o ∈ (p.outcomesOf (documents fs root)).files, Build.HasFile o := by
  intro o ho
  obtain ⟨d, hd, rfl⟩ := List.mem_map.mp ho
  have h := (mem_documents_iff htree).mp hd
  exact ⟨p.outputRoot.join (.ofNames d.directory), d.stem ++ ".pas",
    h.isName_stem htree ".pas" (by decide) (by decide), rfl⟩

/-- **Documents with the same output** are the same. -/
theorem eq_of_target_output (htree : fs.IsTree) {d d' : DocumentFile} (h : d.IsBelow root fs)
    (h' : d'.IsBelow root fs)
    (houtput : fs.target (p.entryOf d).output = fs.target (p.entryOf d').output) : d = d' := by
  rw [target_output htree h, target_output htree h'] at houtput
  exact h.eq_of_beside h' (List.append_cancel_left houtput)

/-- No two entries have the same output. -/
theorem distinctOutputs (htree : fs.IsTree) (p : Project) (root : Place) :
    Build.DistinctOutputs fs (p.outcomesOf (documents fs root)).files := by
  refine List.pairwise_map.mpr ((pairwise_documents htree root).imp_of_mem ?_)
  intro d d' hd hd' hlt houtput
  obtain rfl := eq_of_target_output htree ((mem_documents_iff htree).mp hd)
    ((mem_documents_iff htree).mp hd') houtput
  exact List.lt_irrefl _ hlt

/-- **No output is a document.** -/
theorem target_output_ne_place (htree : fs.IsTree) {d d' : DocumentFile} (h : d.IsBelow root fs) :
    fs.target (p.entryOf d).output ≠ root ++ d'.place := by
  intro heq
  rw [target_output htree h, DocumentFile.place, ← List.append_assoc, ← List.append_assoc] at heq
  have hname := List.singleton_inj.mp (List.append_inj' heq rfl).2
  rw [DocumentFile.fileName, ← String.toList_inj, String.toList_append, String.toList_append]
    at hname
  have hlast := congrArg List.getLast? hname
  have hpas : ".pas".toList.getLast? = some 's' := by decide
  have hjson : ".ast.json".toList.getLast? = some 'n' := by decide
  rw [List.getLast?_append, List.getLast?_append, hpas, hjson] at hlast
  exact absurd (Option.some.inj hlast) (by decide)

/-! ### Documents in a file system that grows -/

/-- Documents stay, and no others come, where only other files are written. -/
theorem isBelow_grow_iff (h : Grows written fs fs')
    (hother : ∀ (d : DocumentFile), root ++ d.place ∉ written) {d : DocumentFile} :
    d.IsBelow root fs' ↔ d.IsBelow root fs := by
  have hframe := h.frame (root ++ d.place) (hother d) d.content
  exact ⟨fun hd => ⟨hd.stem_ne, hframe.mp hd.node⟩, fun hd => ⟨hd.stem_ne, hframe.mpr hd.node⟩⟩

/-- **The documents of a project stay the same** where only other files are written. -/
theorem documents_grow (htree : fs.IsTree) (h : Grows written fs fs')
    (hother : ∀ (d : DocumentFile), root ++ d.place ∉ written) :
    documents fs' root = documents fs root := by
  have htree' := h.isTree htree
  refine FileSystem.eq_of_pairwise (fun _ _ => List.lt_asymm) (pairwise_documents htree' root)
    (pairwise_documents htree root) fun d => ?_
  rw [mem_documents_iff htree, mem_documents_iff htree', isBelow_grow_iff h hother]

/-- The paths of all directories that are **new below a place** can be followed, from a path to the
place. -/
def NewPathsUsable (path : Path) (root : Place) (fs fs' : FileSystem) : Prop :=
  ∀ rest, fs.isDirectoryAt (root ++ rest) = false → fs'.isDirectoryAt (root ++ rest) = true →
    FileSystem.isUsable (path.join (.ofNames rest)) = true

/-- An input root that could be listed **can still be listed** exactly if the paths of all new
directories below it can be followed. -/
theorem isListable_grow_iff (h : Grows written fs fs') {path : Path}
    (hroot : IsListable fs path root) :
    IsListable fs' path root ↔ NewPathsUsable path root fs fs' := by
  constructor
  · intro hroot' rest hold hnew
    refine hroot'.usable rest ?_ hnew
    rintro rfl
    rw [List.append_nil] at hold hnew
    rw [h.isDirectoryAt_eq hroot.isSome, hold] at hnew
    cases hnew
  · intro hnew
    refine ⟨h.locate?_eq_some hroot.locate, h.isSome_node? hroot.isSome, fun rest hne hrest => ?_⟩
    by_cases hold : fs.isDirectoryAt (root ++ rest) = true
    · exact hroot.usable rest hne hold
    · exact hnew rest (Bool.eq_false_iff.mpr hold) hrest

end Project

namespace Build

/-! ### Reports -/

/-- The report of a build that left all files unchanged. -/
def Report.unchanged (r : Report) : Report :=
  { r with files := r.files.map fun file => { file with status := .unchanged } }

/-- The report of a build with the given results. -/
def reportOfResults (p : Project) (outcomes : Project.Outcomes) (dryRun : Bool)
    (results : List (Except Failure BuiltFile)) : Report :=
  ⟨p.outputRoot, results.filterMap Except.toOption, results.filterMap Failure.ofResult?,
    outcomes.missingMain, dryRun⟩

/-- **A build** generates the files of all entries and builds them. -/
theorem run?_eq {outcomes : Project.Outcomes} (houtcomes : p.generateAll? fs = some outcomes)
    (dryRun : Bool) :
    run? p dryRun fs = some ((buildFiles dryRun fs outcomes.files).1,
      reportOfResults p outcomes dryRun (buildFiles dryRun fs outcomes.files).2) := by
  rw [run?, houtcomes]
  rfl

/-- The report of results that came again. -/
theorem reportOfResults_again (p : Project) (outcomes : Project.Outcomes) (dryRun : Bool)
    (results : List (Except Failure BuiltFile)) :
    reportOfResults p outcomes dryRun (results.map again)
      = (reportOfResults p outcomes dryRun results).unchanged := by
  have hfiles : (results.map again).filterMap Except.toOption
      = (results.filterMap Except.toOption).map fun file => { file with status := .unchanged } := by
    rw [List.filterMap_map, List.map_filterMap]
    refine List.filterMap_congr fun r _ => ?_
    rcases r with failure | file <;> rfl
  have hfailures : (results.map again).filterMap Failure.ofResult?
      = results.filterMap Failure.ofResult? := by
    rw [List.filterMap_map]
    refine List.filterMap_congr fun r _ => ?_
    rcases r with failure | file <;> rfl
  rw [reportOfResults, hfiles, hfailures]
  rfl

/-- The files of a report are those that were built. -/
theorem mem_files_iff {outcomes : Project.Outcomes} {dryRun : Bool}
    {results : List (Except Failure BuiltFile)} {file : BuiltFile} :
    file ∈ (reportOfResults p outcomes dryRun results).files ↔ .ok file ∈ results := by
  rw [reportOfResults, List.mem_filterMap]
  constructor
  · rintro ⟨failure | file', hmem, hfile⟩
    · cases hfile
    · obtain rfl := Option.some.inj hfile
      exact hmem
  · intro hmem
    exact ⟨_, hmem, rfl⟩

/-! ### Building again -/

/-- What a build writes is no document. -/
theorem place_not_mem_writtenBy (htree : fs.IsTree) (p : Project) (d : DocumentFile) :
    root ++ d.place ∉ writtenBy fs (p.outcomesOf (Project.documents fs root)).files := by
  intro hmem
  obtain ⟨o, ho, hplace, -⟩ := exists_of_mem_writtenBy htree (Project.hasFile_of_mem htree p root) hmem
  obtain ⟨d', hd', rfl⟩ := List.mem_map.mp ho
  exact Project.target_output_ne_place htree ((Project.mem_documents_iff htree).mp hd') hplace.symm

/-- What a build writes for an entry is its output only. -/
theorem target_not_mem_writtenBy (htree : fs.IsTree) {d : DocumentFile} (h : d.IsBelow root fs)
    (hfailed : ∀ file, .ok file ∈
      (buildFiles false fs (p.outcomesOf (Project.documents fs root)).files).2 →
        file.output ≠ (p.entryOf d).output) :
    fs.target (p.entryOf d).output
      ∉ writtenBy fs (p.outcomesOf (Project.documents fs root)).files := by
  intro hmem
  obtain ⟨o, ho, hplace, file, hfile, -, houtput⟩ :=
    exists_of_mem_writtenBy htree (Project.hasFile_of_mem htree p root) hmem
  obtain ⟨d', hd', rfl⟩ := List.mem_map.mp ho
  obtain rfl := Project.eq_of_target_output htree h ((Project.mem_documents_iff htree).mp hd') hplace
  exact hfailed file hfile houtput

/-- The file system that a build leaves behind. -/
def afterBuild (p : Project) (root : Place) (fs : FileSystem) : FileSystem :=
  (buildFiles false fs (p.outcomesOf (Project.documents fs root)).files).1

/-- What a build reports. -/
def reportOfBuild (p : Project) (root : Place) (fs : FileSystem) : Report :=
  reportOfResults p (p.outcomesOf (Project.documents fs root)) false
    (buildFiles false fs (p.outcomesOf (Project.documents fs root)).files).2

/-- A build of a project whose input root can be listed. -/
theorem run?_of_isListable (htree : fs.IsTree) (hroot : IsListable fs p.inputRoot root) :
    run? p false fs = some (afterBuild p root fs, reportOfBuild p root fs) :=
  run?_eq ((Project.generateAll?_eq_some_iff htree).mpr ⟨root, hroot, rfl⟩) false

/-- **A build lets a file system grow**, and writes the outputs of entries only. -/
theorem afterBuild_grows (htree : fs.IsTree) (p : Project) (root : Place) :
    Grows (writtenBy fs (p.outcomesOf (Project.documents fs root)).files) fs
      (afterBuild p root fs) :=
  buildFiles_grows htree (Project.hasFile_of_mem htree p root)

/-- **A second build** changes nothing and reports the same. -/
theorem run?_afterBuild (htree : fs.IsTree)
    (hroot : IsListable (afterBuild p root fs) p.inputRoot root) :
    run? p false (afterBuild p root fs)
      = some (afterBuild p root fs, (reportOfBuild p root fs).unchanged) := by
  have hgrows := afterBuild_grows htree p root
  have hdocuments := Project.documents_grow htree hgrows fun d => place_not_mem_writtenBy htree p d
  have hagain := buildFiles_again htree (Project.hasFile_of_mem htree p root)
    (Project.distinctOutputs htree p root) (.refl (afterBuild p root fs)) (by simp)
  have houtcomes := (Project.generateAll?_eq_some_iff (hgrows.isTree htree)).mpr ⟨root, hroot, rfl⟩
  rw [run?_eq houtcomes, hdocuments, hagain, reportOfResults_again, reportOfBuild]

/-- A build fails if the input root cannot be listed. -/
theorem run?_eq_none (htree : fs.IsTree) (hlocate : fs.locate? p.inputRoot = some root)
    (hroot : ¬IsListable fs p.inputRoot root) (dryRun : Bool) : run? p dryRun fs = none := by
  have hnone : p.discover? fs = none := by
    refine (Project.discover?_eq_none_iff htree).mpr fun place hplace => ?_
    obtain rfl := Option.some.inj (hplace.locate.symm.trans hlocate)
    exact hroot hplace
  rw [run?, Project.generateAll?, hnone]
  rfl

/-- The files that a build reports hold what was generated for their entries. -/
theorem exists_of_mem_files (htree : fs.IsTree) (hroot : IsListable fs p.inputRoot root)
    {file : BuiltFile} (hfile : file ∈ (reportOfBuild p root fs).files) :
    (file.status = .written ∨ file.status = .unchanged) ∧
      ∃ (d : DocumentFile) (g : GeneratedFile), d.IsBelow root fs ∧
        p.generateEntry fs (p.entryOf d) = .ok g ∧ file.source = (p.entryOf d).label ∧
        file.output = (p.entryOf d).output ∧
        (afterBuild p root fs).read? file.output = some g.content.toUTF8 := by
  obtain ⟨o, ho, g, h⟩ := buildFiles_reports htree (Project.hasFile_of_mem htree p root)
    (Project.distinctOutputs htree p root) (mem_files_iff.mp hfile)
  obtain ⟨d, hd, rfl⟩ := List.mem_map.mp ho
  have hbelow := (Project.mem_documents_iff htree).mp hd
  refine ⟨h.status, d, g, hbelow, ?_, h.source, h.output, ?_⟩
  · rw [Project.generateEntry_entryOf htree hroot hbelow]
    exact h.generated
  · rw [h.output, afterBuild, h.read?_output]

/-- What a build writes is where the files lie that it reports as written. -/
theorem exists_written (htree : fs.IsTree) {place : Place}
    (hplace : place ∈ writtenBy fs (p.outcomesOf (Project.documents fs root)).files) :
    ∃ file ∈ (reportOfBuild p root fs).files, file.status = .written ∧
      (afterBuild p root fs).locate? file.output = some place := by
  have hpaths := Project.hasFile_of_mem htree p root
  obtain ⟨o, -, htarget, file, hfile, hstatus, houtput⟩ := exists_of_mem_writtenBy htree hpaths hplace
  obtain ⟨o', -, g, h⟩ :=
    buildFiles_reports htree hpaths (Project.distinctOutputs htree p root) hfile
  refine ⟨file, mem_files_iff.mpr hfile, hstatus, ?_⟩
  rw [afterBuild, h.locate, houtput, htarget]
  exact congrArg some ((afterBuild_grows htree p root).target_eq _)

/-- **What a build leaves behind, and what a second one does.** Of a tree whose input root can be
listed, a build makes a tree in which each file that is reported holds what was generated for its
entry. Every other file stays as it is, documents and the outputs of entries that failed among them,
and nothing else comes but directories. A second build leaves the tree as it is and reports the same,
with all files unchanged, if the paths of the directories that the first one made below the input root
can be followed; if not, it fails. Dry runs and checks change nothing. -/
theorem run?_again (htree : fs.IsTree) (p : Project) {root : Place}
    (hroot : IsListable fs p.inputRoot root) :
    ∃ (fs' : FileSystem) (report : Report),
      run? p false fs = some (fs', report) ∧ fs'.IsTree ∧
      (∀ file ∈ report.files, (file.status = .written ∨ file.status = .unchanged) ∧
        ∃ (d : DocumentFile) (g : GeneratedFile), d.IsBelow root fs ∧
          p.generateEntry fs (p.entryOf d) = .ok g ∧ file.source = (p.entryOf d).label ∧
          file.output = (p.entryOf d).output ∧ fs'.read? file.output = some g.content.toUTF8) ∧
      (∀ place, (∀ file ∈ report.files, file.status = .written →
          fs'.locate? file.output ≠ some place) →
        ∀ content, fs'.node? place = some (.file content) ↔ fs.node? place = some (.file content)) ∧
      (∀ d : DocumentFile, d.IsBelow root fs' ↔ d.IsBelow root fs) ∧
      (∀ d : DocumentFile, d.IsBelow root fs →
        (∀ file ∈ report.files, file.output ≠ (p.entryOf d).output) →
        ∀ place, fs'.locate? (p.entryOf d).output = some place → ∀ content,
          fs'.node? place = some (.file content) ↔ fs.node? place = some (.file content)) ∧
      (∀ place, fs.isDirectoryAt place = true → fs'.isDirectoryAt place = true) ∧
      (Project.NewPathsUsable p.inputRoot root fs fs' →
        run? p false fs' = some (fs', report.unchanged)) ∧
      (¬Project.NewPathsUsable p.inputRoot root fs fs' → run? p false fs' = none) ∧
      (∃ preview, run? p true fs = some (fs, preview)) ∧
      ∀ arguments, (CommandLine.execute fs (.check arguments)).1 = fs := by
  have hgrows := afterBuild_grows htree p root
  have hlistable := Project.isListable_grow_iff hgrows hroot
  refine ⟨afterBuild p root fs, reportOfBuild p root fs, run?_of_isListable htree hroot,
    hgrows.isTree htree, fun file => exists_of_mem_files htree hroot, ?frame,
    fun d => Project.isBelow_grow_iff hgrows fun d => place_not_mem_writtenBy htree p d, ?failed,
    hgrows.directory, fun hnew => run?_afterBuild htree (hlistable.mpr hnew), fun hnew => ?_, ?_,
    fun _ => rfl⟩
  case frame =>
    intro place hplace content
    refine hgrows.frame place (fun hmem => ?_) content
    obtain ⟨file, hfile, hstatus, hlocate⟩ := exists_written htree hmem
    exact hplace file hfile hstatus hlocate
  case failed =>
    intro d hd hfailed place hplace content
    obtain ⟨-, rfl⟩ := FileSystem.eq_target_of_locate? hplace
    rw [hgrows.target_eq]
    refine hgrows.frame _ (target_not_mem_writtenBy htree hd fun file hfile => ?_) content
    exact hfailed file (mem_files_iff.mpr hfile)
  · exact run?_eq_none (hgrows.isTree htree) (hgrows.locate?_eq_some hroot.locate)
      (mt hlistable.mp hnew) false
  · have houtcomes := (Project.generateAll?_eq_some_iff htree).mpr ⟨root, hroot, rfl⟩
    rw [run?_eq houtcomes, buildFiles_dryRun]
    exact ⟨_, rfl⟩

/-! ### A project that builds into its input root -/

/-- A tree with one document. -/
def smallTree : FileSystem where
  nodes := [(["in"], .directory), (["in", "a.ast.json"], .file "{}".toUTF8)]
  workingDirectory := []

/-- The document in it. -/
def smallDocument : DocumentFile :=
  ⟨[], "a", "{}".toUTF8⟩

/-- A project whose output root lies below its input root. -/
def overlappingProject (inputRoot : Path) : Project :=
  ⟨.ofRoot inputRoot, ⟨"in/oooooooooooooooooooooooooooooooooooooooo"⟩, none⟩

/-- The output root, as a place below the input root. -/
def overlappingPlace : Place :=
  ["oooooooooooooooooooooooooooooooooooooooo"]

/-- The tree has one document. -/
theorem documents_smallTree : Project.documents smallTree ["in"] = [smallDocument] := by
  have hfiles : smallTree.filesBelow ["in"] = [["a.ast.json"]] :=
    FileSystem.filesBelow_of_pairwise (by decide) (by decide)
  rw [Project.documents, hfiles]
  rfl

/-- A file is generated for the document, if its path is not too long. -/
theorem exists_resultOf_small (inputRoot : Path)
    (husable : FileSystem.isUsable (inputRoot.join ⟨"a.ast.json"⟩) = true) :
    ∃ g, (overlappingProject inputRoot).resultOf smallDocument = .ok g := by
  have hcontent : smallDocument.content = "{}".toUTF8 := rfl
  have hparse : Source.Document.parse "{}" = .ok ⟨[], [], []⟩ := by cbv
  have hpath : ((overlappingProject inputRoot).entryOf smallDocument).document
      = inputRoot.join ⟨"a.ast.json"⟩ := rfl
  rw [Project.resultOf, hpath, if_pos husable, hcontent, Project.resultOfContent_of_parse hparse]
  exact ⟨_, rfl⟩

/-- The output of the document. -/
def smallOutput : Path :=
  ⟨"in/oooooooooooooooooooooooooooooooooooooooo/a.pas"⟩

/-- Writing the output makes the output root first. -/
theorem update_smallTree (content : String) :
    smallTree.update smallOutput content
      = ((smallTree.putAt (["in"] ++ overlappingPlace) .directory).putAt
          (["in"] ++ overlappingPlace ++ ["a.pas"]) (.file content.toUTF8), .written) := by
  have hnone : smallTree.lookup? smallOutput = none := by decide
  have hprepare : smallTree.prepare smallOutput
      = (smallTree.putAt (["in"] ++ overlappingPlace) .directory, true) := rfl
  have hlocate : (smallTree.putAt (["in"] ++ overlappingPlace) .directory).locate? smallOutput
      = some (["in"] ++ overlappingPlace ++ ["a.pas"]) := by decide
  have hfree : (smallTree.putAt (["in"] ++ overlappingPlace) .directory).isDirectoryAt
      (["in"] ++ overlappingPlace ++ ["a.pas"]) = false := by decide
  simp only [FileSystem.update, hnone, FileSystem.update.write, FileSystem.writeFile_eq, hprepare,
    FileSystem.writeInto?, hlocate, hfree, if_true, Bool.false_eq_true, if_false]

/-- What a build makes of the tree. -/
theorem exists_afterBuild_small (inputRoot : Path)
    (husable : FileSystem.isUsable (inputRoot.join ⟨"a.ast.json"⟩) = true) :
    ∃ content, afterBuild (overlappingProject inputRoot) ["in"] smallTree
      = (smallTree.putAt (["in"] ++ overlappingPlace) .directory).putAt
          (["in"] ++ overlappingPlace ++ ["a.pas"]) (.file content) := by
  obtain ⟨g, hg⟩ := exists_resultOf_small inputRoot husable
  have houtput : ((overlappingProject inputRoot).entryOf smallDocument).output = smallOutput := by
    dsimp only [Project.entryOf, overlappingProject, smallDocument]
    decide
  have hupdate := houtput ▸ update_smallTree g.content
  have hbuild := buildFile_of_update (o := ⟨(overlappingProject inputRoot).entryOf smallDocument,
    (overlappingProject inputRoot).resultOf smallDocument⟩) hg hupdate
  refine ⟨g.content.toUTF8, ?_⟩
  rw [afterBuild, documents_smallTree]
  simp only [Project.outcomesOf, List.map_cons, List.map_nil, buildFiles_cons, buildFiles, hbuild]

/-- The input root can be listed before the build, however it is written. -/
theorem isListable_smallTree (inputRoot : Path)
    (hlocate : smallTree.locate? inputRoot = some ["in"]) :
    IsListable smallTree inputRoot ["in"] := by
  have htree : smallTree.IsTree := by decide
  have hnone : smallTree.directoriesBelow ["in"] = [] := by decide
  exact (htree.isListable_iff hlocate).mpr ⟨rfl, by decide, by simp [hnone]⟩

/-- A project can be built into its input root, and then again. -/
theorem run?_again_small :
    smallTree.IsTree ∧ ∃ (fs' : FileSystem) (report : Report),
      run? (overlappingProject ⟨"in"⟩) false smallTree = some (fs', report) ∧
      fs'.isDirectoryAt (["in"] ++ overlappingPlace) = true ∧
      run? (overlappingProject ⟨"in"⟩) false fs' = some (fs', report.unchanged) := by
  have htree : smallTree.IsTree := by decide
  have hroot := isListable_smallTree ⟨"in"⟩ (by decide)
  obtain ⟨content, hafter⟩ := exists_afterBuild_small ⟨"in"⟩ (by decide)
  obtain ⟨fs', report, hrun, htree', -, -, -, -, -, hagain, -⟩ :=
    run?_again htree (overlappingProject ⟨"in"⟩) hroot
  obtain rfl : fs' = _ :=
    (Prod.mk.inj (Option.some.inj (hrun.symm.trans (run?_of_isListable htree hroot)))).1
  refine ⟨htree, _, report, hrun, ?_, hagain fun rest hold hrest => ?_⟩
  · rw [hafter]
    rfl
  · have hne : rest ≠ [] := by
      rintro rfl
      exact absurd hold (by decide)
    have hmem := htree'.mem_directoriesBelow_iff.mpr ⟨hne, hrest⟩
    rw [hafter] at hmem
    obtain rfl : rest = overlappingPlace := List.mem_singleton.mp hmem
    decide

/-- An input root that is written with as many slashes as leave room for the name of the document,
but not for that of the output root. -/
def longRoot : Path :=
  Path.withSlashes ⟨"in"⟩ 4068

/-- **A build after which the project cannot be built any more**: it makes a directory below the
input root whose path is too long. -/
theorem run?_blocked :
    smallTree.IsTree ∧ IsListable smallTree longRoot ["in"] ∧
      ∃ (fs' : FileSystem) (report : Report),
        run? (overlappingProject longRoot) false smallTree = some (fs', report) ∧
        run? (overlappingProject longRoot) false fs' = none := by
  have htree : smallTree.IsTree := by decide
  have hsize : longRoot.text.utf8ByteSize = 4070 := Path.utf8ByteSize_withSlashes ⟨"in"⟩ 4068
  have hlocate : smallTree.locate? longRoot = some ["in"] :=
    FileSystem.locate?_withSlashes (p := ⟨"in"⟩) (by decide) (by decide) (by decide)
  have hroot := isListable_smallTree longRoot hlocate
  have hdocument : FileSystem.isUsable (longRoot.join ⟨"a.ast.json"⟩) = true :=
    FileSystem.isUsable_join (FileSystem.isUsable_withSlashes (p := ⟨"in"⟩) (by decide) (by decide))
      (by decide) (by rw [hsize]; decide)
  obtain ⟨content, hafter⟩ := exists_afterBuild_small longRoot hdocument
  have hgrows := afterBuild_grows htree (overlappingProject longRoot) ["in"]
  have hnew : (afterBuild (overlappingProject longRoot) ["in"] smallTree).isDirectoryAt
      (["in"] ++ overlappingPlace) = true := by
    rw [hafter]
    rfl
  have hlong : FileSystem.isUsable (longRoot.join (.ofNames overlappingPlace)) = false :=
    FileSystem.isUsable_join_eq_false (n := "oooooooooooooooooooooooooooooooooooooooo")
      ⟨by decide, by decide⟩ (by rw [hsize]; decide)
  have hblocked : ¬IsListable (afterBuild (overlappingProject longRoot) ["in"] smallTree) longRoot
      ["in"] := by
    intro hlistable
    have husable := hlistable.usable overlappingPlace (by decide) hnew
    rw [hlong] at husable
    cases husable
  exact ⟨htree, hroot, _, _, run?_of_isListable (p := overlappingProject longRoot) htree hroot,
    run?_eq_none (p := overlappingProject longRoot) (hgrows.isTree htree)
      (hgrows.locate?_eq_some hlocate) hblocked false⟩

end Build

end DelphiUnits

import DelphiUnits.Proofs.FileSystem.Update
import DelphiUnits.Report.Build

/-!
# Building entries one after the other

A build brings the generated files of all entries up to date, one after the other. As long as no two
entries have the same output, none of them undoes what another did: each file that is reported holds
its content at the end, no other file is written, and building the entries again changes nothing.

Each statement is proved for one entry first, and for a list of entries by induction. What carries the
induction is that the file system only grows, and that later entries write elsewhere.

## Main results

* `buildFiles_grows`, `exists_of_mem_writtenBy`: what a build changes;
* `buildFiles_reports`: what the files hold that are reported;
* `buildFiles_settled`, `buildFiles_again`: what a second build does;
* `buildFiles_dryRun`: a dry run changes nothing.
-/

namespace DelphiUnits.Build

open DelphiUnits.Path (IsName)
open FileSystem (IsTree Grows WriteResult)
open Project (FileOutcome)

variable {fs fs' : FileSystem} {written : List Place} {o : FileOutcome} {os : List FileOutcome}

/-! ### One entry -/

/-- An entry **has a file to write**: its output goes on from a directory with a name. -/
def HasFile (o : FileOutcome) : Prop :=
  ∃ (directory : Path) (n : String), IsName n ∧ o.entry.output = directory.join ⟨n⟩

/-- How a file is reported that was brought up to date. -/
def statusOf? : WriteResult → Option Status
  | .written => some .written
  | .unchanged => some .unchanged
  | .failed => none

/-- What is reported of an entry whose file was brought up to date, or could not be. -/
def reportOf (o : FileOutcome) (g : GeneratedFile) (r : WriteResult) : Except Failure BuiltFile :=
  match statusOf? r with
  | some status => .ok (builtFile o.entry g status)
  | none => .error (.ofWrite o.entry)

/-- Building an entry whose file could be generated brings the file up to date. -/
theorem buildFile_of_ok {g : GeneratedFile} (hg : o.result = .ok g) :
    buildFile false fs o = ((fs.update o.entry.output g.content).1,
      reportOf o g (fs.update o.entry.output g.content).2) := by
  rw [buildFile, hg]
  rcases hresult : fs.update o.entry.output g.content with ⟨fs', _ | _ | _⟩ <;>
    simp [hresult, reportOf, statusOf?]

/-- Building an entry, if it is known what bringing its file up to date does. -/
theorem buildFile_of_update {g : GeneratedFile} (hg : o.result = .ok g) {r : WriteResult}
    (hupdate : fs.update o.entry.output g.content = (fs', r)) :
    buildFile false fs o = (fs', reportOf o g r) := by
  rw [buildFile_of_ok hg, hupdate]

/-- Building an entry whose file could not be generated changes nothing. -/
theorem buildFile_of_error {error : Pascal.DraftError} (hg : o.result = .error error) :
    buildFile false fs o = (fs, .error (.ofError o.entry error)) := by
  rw [buildFile, hg]

/-- The places of the files that building an entry writes. -/
def writtenAt (fs : FileSystem) (o : FileOutcome) : List Place :=
  match o.result with
  | .error _ => []
  | .ok g => (fs.update o.entry.output g.content).2.places (fs.target o.entry.output)

/-- **Building an entry** lets a file system grow, and writes the output of the entry only. -/
theorem buildFile_grows (htree : fs.IsTree) (ho : HasFile o) :
    Grows (writtenAt fs o) fs (buildFile false fs o).1 := by
  obtain ⟨directory, n, hn, houtput⟩ := ho
  rcases hg : o.result with error | g
  · rw [buildFile_of_error hg, writtenAt, hg]
    exact .refl fs
  · rw [buildFile_of_ok hg, writtenAt, hg]
    exact htree.update_grows hn houtput g.content

/-- What is written for an entry is its output, and reported as such. -/
theorem exists_of_mem_writtenAt {q : Place} (hq : q ∈ writtenAt fs o) :
    q = fs.target o.entry.output ∧ ∃ file, (buildFile false fs o).2 = .ok file ∧
      file.status = .written ∧ file.output = o.entry.output := by
  rw [writtenAt] at hq
  rcases hg : o.result with error | g <;> simp only [hg] at hq
  · exact absurd hq List.not_mem_nil
  · rw [buildFile_of_ok hg]
    rcases hresult : (fs.update o.entry.output g.content).2 with _ | _ | _ <;> rw [hresult] at hq
    · exact ⟨List.mem_singleton.mp hq, _, rfl, rfl, rfl⟩
    · exact absurd hq List.not_mem_nil
    · exact absurd hq List.not_mem_nil

/-- A file **is reported** for an entry: it holds what was generated. -/
structure Reports (fs : FileSystem) (o : FileOutcome) (file : BuiltFile) (g : GeneratedFile) :
    Prop where
  /-- It was generated. -/
  generated : o.result = .ok g
  /-- It is reported under the source file of the entry. -/
  source : file.source = o.entry.label
  /-- It is the output of the entry. -/
  output : file.output = o.entry.output
  /-- It was brought up to date. -/
  status : file.status = .written ∨ file.status = .unchanged
  /-- It is where its path leads. -/
  locate : fs.locate? file.output = some (fs.target file.output)
  /-- It holds what was generated. -/
  node : fs.node? (fs.target file.output) = some (.file g.content.toUTF8)

/-- **A file that is reported holds what was generated.** -/
theorem buildFile_reports (htree : fs.IsTree) (ho : HasFile o) {file : BuiltFile}
    (h : (buildFile false fs o).2 = .ok file) :
    ∃ g, Reports (buildFile false fs o).1 o file g := by
  have hgrows := buildFile_grows htree ho
  obtain ⟨directory, n, hn, houtput⟩ := ho
  rcases hg : o.result with error | g
  · rw [buildFile_of_error hg] at h
    cases h
  have htarget := hgrows.target_eq o.entry.output
  rw [buildFile_of_ok hg] at h htarget ⊢
  have hdone : (fs.update o.entry.output g.content).2 ≠ .failed := by
    intro hfailed
    rw [hfailed] at h
    cases h
  obtain ⟨hlocate, hnode⟩ := htree.node?_update hn houtput hdone
  rw [← htarget] at hlocate hnode
  have hstatus : ∃ status, file = builtFile o.entry g status ∧
      (status = .written ∨ status = .unchanged) := by
    rcases hresult : (fs.update o.entry.output g.content).2 with _ | _ | _ <;> rw [hresult] at h
    · exact ⟨.written, (Except.ok.inj h).symm, .inl rfl⟩
    · exact ⟨.unchanged, (Except.ok.inj h).symm, .inr rfl⟩
    · exact absurd hresult hdone
  obtain ⟨status, rfl, hstatus⟩ := hstatus
  exact ⟨g, hg, rfl, rfl, hstatus, hlocate, hnode⟩

/-- Who reads the file finds what was generated. -/
theorem Reports.read?_output {file : BuiltFile} {g : GeneratedFile} (h : Reports fs o file g) :
    fs.read? o.entry.output = some g.content.toUTF8 := by
  rw [← h.output, FileSystem.read?, FileSystem.lookup?, h.locate, Option.bind_some, h.node]

/-- It still does when other files are written. -/
theorem Reports.grow {file : BuiltFile} {g : GeneratedFile} (h : Reports fs o file g)
    (hgrows : Grows written fs fs') (hother : fs.target file.output ∉ written) :
    Reports fs' o file g := by
  refine ⟨h.generated, h.source, h.output, h.status, ?_, ?_⟩
  · rw [hgrows.target_eq]
    exact hgrows.locate?_eq_some h.locate
  · rw [hgrows.target_eq]
    exact (hgrows.frame _ hother _).mpr h.node

/-- What is reported of an entry the next time. -/
def again (r : Except Failure BuiltFile) : Except Failure BuiltFile :=
  r.map fun file => { file with status := .unchanged }

/-- **Building an entry again**, at any time before somebody else writes to its output, changes
nothing. -/
theorem buildFile_again (htree : fs.IsTree) (ho : HasFile o)
    (h : Grows written (buildFile false fs o).1 fs')
    (hother : fs.target o.entry.output ∉ written) :
    buildFile false fs' o = (fs', again (buildFile false fs o).2) := by
  obtain ⟨directory, n, hn, houtput⟩ := ho
  rcases hg : o.result with error | g
  · rw [buildFile_of_error hg, buildFile_of_error hg]
    rfl
  · rw [buildFile_of_ok hg] at h
    rw [buildFile_of_ok hg, buildFile_of_ok hg, htree.update_again hn houtput h hother]
    rcases (fs.update o.entry.output g.content).2 with _ | _ | _ <;> rfl

/-- What a dry run reports of an entry. -/
def previewOf (o : FileOutcome) : Except Failure BuiltFile :=
  match o.result with
  | .error error => .error (.ofError o.entry error)
  | .ok g => .ok (builtFile o.entry g (.preview g.content))

/-- **A dry run of an entry** changes nothing. -/
theorem buildFile_dryRun (fs : FileSystem) (o : FileOutcome) :
    buildFile true fs o = (fs, previewOf o) := by
  rw [buildFile, previewOf]
  rcases o.result with error | g <;> rfl

/-! ### Several entries -/

/-- Entries are built one after the other. -/
theorem buildFiles_cons (dryRun : Bool) (fs : FileSystem) (o : FileOutcome)
    (rest : List FileOutcome) :
    buildFiles dryRun fs (o :: rest) =
      ((buildFiles dryRun (buildFile dryRun fs o).1 rest).1,
        (buildFile dryRun fs o).2 :: (buildFiles dryRun (buildFile dryRun fs o).1 rest).2) :=
  rfl

/-- A dry run of several entries. -/
theorem buildFiles_dryRun_eq (fs : FileSystem) (os : List FileOutcome) :
    buildFiles true fs os = (fs, os.map previewOf) := by
  induction os with
  | nil => rfl
  | cons o rest ih => rw [buildFiles_cons, buildFile_dryRun, ih, List.map_cons]

/-- **A dry run changes nothing.** -/
theorem buildFiles_dryRun (fs : FileSystem) (os : List FileOutcome) :
    (buildFiles true fs os).1 = fs := by
  rw [buildFiles_dryRun_eq]

/-- The places of the files that building several entries writes. -/
def writtenBy (fs : FileSystem) : List FileOutcome → List Place
  | [] => []
  | o :: rest => writtenAt fs o ++ writtenBy (buildFile false fs o).1 rest

/-- **Building entries** lets a file system grow. -/
theorem buildFiles_grows (htree : fs.IsTree) (hos : ∀ o ∈ os, HasFile o) :
    Grows (writtenBy fs os) fs (buildFiles false fs os).1 := by
  induction os generalizing fs with
  | nil => exact .refl fs
  | cons o rest ih =>
      have hstep := buildFile_grows htree (hos o List.mem_cons_self)
      have hrest := ih (hstep.isTree htree) fun o' ho' => hos o' (List.mem_cons_of_mem _ ho')
      exact hstep.trans hrest

/-- **What is written is the output of an entry**, and reported as such. -/
theorem exists_of_mem_writtenBy (htree : fs.IsTree) (hos : ∀ o ∈ os, HasFile o) {q : Place}
    (hq : q ∈ writtenBy fs os) :
    ∃ o ∈ os, q = fs.target o.entry.output ∧ ∃ file, .ok file ∈ (buildFiles false fs os).2 ∧
      file.status = .written ∧ file.output = o.entry.output := by
  induction os generalizing fs with
  | nil => exact absurd hq List.not_mem_nil
  | cons o rest ih =>
      have hstep := buildFile_grows htree (hos o List.mem_cons_self)
      rcases List.mem_append.mp hq with hq | hq
      · obtain ⟨hplace, file, hfile, hstatus, houtput⟩ := exists_of_mem_writtenAt hq
        refine ⟨o, List.mem_cons_self, hplace, file, ?_, hstatus, houtput⟩
        rw [buildFiles_cons, hfile]
        exact List.mem_cons_self
      · obtain ⟨o', ho', hplace, file, hfile, hstatus, houtput⟩ :=
          ih (hstep.isTree htree) (fun o' ho' => hos o' (List.mem_cons_of_mem _ ho')) hq
        rw [hstep.target_eq] at hplace
        exact ⟨o', List.mem_cons_of_mem _ ho', hplace, file, List.mem_cons_of_mem _ hfile, hstatus,
          houtput⟩

/-- No two entries **have the same output**. -/
def DistinctOutputs (fs : FileSystem) (os : List FileOutcome) : Prop :=
  os.Pairwise fun o o' => fs.target o.entry.output ≠ fs.target o'.entry.output

/-- Later entries do not write to the output of the first one, and have different outputs
themselves. -/
theorem DistinctOutputs.of_cons {rest : List FileOutcome} (h : DistinctOutputs fs (o :: rest))
    (htree : fs.IsTree) (hos : ∀ o' ∈ o :: rest, HasFile o') :
    fs.target o.entry.output ∉ writtenBy (buildFile false fs o).1 rest ∧
      DistinctOutputs (buildFile false fs o).1 rest := by
  have hstep := buildFile_grows htree (hos o List.mem_cons_self)
  obtain ⟨hfirst, hrest⟩ := List.pairwise_cons.mp h
  constructor
  · intro hmem
    obtain ⟨o', ho', hplace, -⟩ := exists_of_mem_writtenBy (hstep.isTree htree)
      (fun o' ho' => hos o' (List.mem_cons_of_mem _ ho')) hmem
    rw [hstep.target_eq] at hplace
    exact hfirst o' ho' hplace
  · refine hrest.imp fun hne => ?_
    rwa [hstep.target_eq, hstep.target_eq]

/-- **All files that are reported hold what was generated**, at the end of the build. -/
theorem buildFiles_reports (htree : fs.IsTree) (hos : ∀ o ∈ os, HasFile o)
    (hdistinct : DistinctOutputs fs os) {file : BuiltFile}
    (hfile : .ok file ∈ (buildFiles false fs os).2) :
    ∃ o ∈ os, ∃ g, Reports (buildFiles false fs os).1 o file g := by
  induction os generalizing fs with
  | nil => exact absurd hfile List.not_mem_nil
  | cons o rest ih =>
      have hstep := buildFile_grows htree (hos o List.mem_cons_self)
      have hpaths : ∀ o' ∈ rest, HasFile o' := fun o' ho' => hos o' (List.mem_cons_of_mem _ ho')
      obtain ⟨hother, hdistinct'⟩ := hdistinct.of_cons htree hos
      rw [buildFiles_cons] at hfile
      rcases List.mem_cons.mp hfile with hfile | hfile
      · obtain ⟨g, hreports⟩ := buildFile_reports htree (hos o List.mem_cons_self) hfile.symm
        refine ⟨o, List.mem_cons_self, g, ?_⟩
        refine hreports.grow (buildFiles_grows (hstep.isTree htree) hpaths) ?_
        rw [hreports.output, hstep.target_eq]
        exact hother
      · obtain ⟨o', ho', g, hreports⟩ := ih (hstep.isTree htree) hpaths hdistinct' hfile
        exact ⟨o', List.mem_cons_of_mem _ ho', g, hreports⟩

/-- An entry **is settled** in a file system: it was built with a result, and building it again
changes nothing and has the same result. -/
structure Settled (fs : FileSystem) (o : FileOutcome) (r : Except Failure BuiltFile) : Prop where
  /-- The entry was built with the result. -/
  built : ∃ before, (buildFile false before o).2 = r
  /-- Building it again changes nothing. -/
  again : buildFile false fs o = (fs, Build.again r)

/-- **What a settled entry can have come to**: no file could be generated, or a file holds what was
generated, or it cannot be written. -/
theorem Settled.cases {r : Except Failure BuiltFile} (h : Settled fs o r) (htree : fs.IsTree)
    (ho : HasFile o) :
    (∃ error, o.result = .error error ∧ r = .error (.ofError o.entry error)) ∨
    (∃ g status, o.result = .ok g ∧ (status = .written ∨ status = .unchanged) ∧
      r = .ok (builtFile o.entry g status) ∧
      fs.read? o.entry.output = some g.content.toUTF8) ∨
    (∃ g, o.result = .ok g ∧ r = .error (.ofWrite o.entry) ∧
      (fs.update o.entry.output g.content).2 = .failed) := by
  obtain ⟨⟨before, rfl⟩, hagain⟩ := h
  rcases hg : o.result with error | g
  · rw [buildFile_of_error hg]
    exact .inl ⟨error, rfl, rfl⟩
  have hreport : (buildFile false fs o).2 = Build.again (buildFile false before o).2 := by
    rw [hagain]
  have hread {file : BuiltFile} (hfile : (buildFile false fs o).2 = .ok file) :
      fs.read? o.entry.output = some g.content.toUTF8 := by
    obtain ⟨g', hreports⟩ := buildFile_reports htree ho hfile
    obtain rfl : g = g' := Except.ok.inj (hg.symm.trans hreports.generated)
    rw [hagain] at hreports
    exact hreports.read?_output
  have hbefore : (buildFile false before o).2
      = reportOf o g (before.update o.entry.output g.content).2 := by rw [buildFile_of_ok hg]
  rw [hbefore] at hreport ⊢
  generalize (before.update o.entry.output g.content).2 = result at hreport ⊢
  cases result with
  | written => exact .inr (.inl ⟨g, .written, rfl, .inl rfl, rfl, hread hreport⟩)
  | unchanged => exact .inr (.inl ⟨g, .unchanged, rfl, .inr rfl, rfl, hread hreport⟩)
  | failed =>
      refine .inr (.inr ⟨g, rfl, rfl, ?_⟩)
      rw [buildFile_of_ok hg] at hreport
      dsimp only at hreport
      generalize (fs.update o.entry.output g.content).2 = result at hreport ⊢
      cases result with
      | failed => rfl
      | _ => cases hreport

/-- **All entries are settled** when they have been built, at any time before somebody else writes to
their outputs. -/
theorem buildFiles_settled (htree : fs.IsTree) (hos : ∀ o ∈ os, HasFile o)
    (hdistinct : DistinctOutputs fs os) (h : Grows written (buildFiles false fs os).1 fs')
    (hother : ∀ o ∈ os, fs.target o.entry.output ∉ written) :
    List.Forall₂ (Settled fs') os (buildFiles false fs os).2 := by
  induction os generalizing fs with
  | nil => exact .nil
  | cons o rest ih =>
      have ho := hos o List.mem_cons_self
      have hstep := buildFile_grows htree ho
      have hpaths : ∀ o' ∈ rest, HasFile o' := fun o' ho' => hos o' (List.mem_cons_of_mem _ ho')
      obtain ⟨hfirst, hdistinct'⟩ := hdistinct.of_cons htree hos
      have hlater := (buildFiles_grows (hstep.isTree htree) hpaths).trans h
      have hnot : fs.target o.entry.output
          ∉ writtenBy (buildFile false fs o).1 rest ++ written := by
        rw [List.mem_append]
        exact not_or.mpr ⟨hfirst, hother o List.mem_cons_self⟩
      have hrest := ih (hstep.isTree htree) hpaths hdistinct' h fun o' ho' => by
        rw [hstep.target_eq]
        exact hother o' (List.mem_cons_of_mem _ ho')
      exact .cons ⟨⟨fs, rfl⟩, buildFile_again htree ho hlater hnot⟩ hrest

/-- Building entries that are settled changes nothing. -/
theorem buildFiles_of_settled {results : List (Except Failure BuiltFile)}
    (h : List.Forall₂ (Settled fs) os results) :
    buildFiles false fs os = (fs, results.map again) := by
  induction h with
  | nil => rfl
  | cons hsettled _ ih => rw [buildFiles_cons, hsettled.again, ih, List.map_cons]

/-- **Building entries again**, at any time before somebody else writes to their outputs, changes
nothing and reports the same, with all files unchanged. -/
theorem buildFiles_again (htree : fs.IsTree) (hos : ∀ o ∈ os, HasFile o)
    (hdistinct : DistinctOutputs fs os) (h : Grows written (buildFiles false fs os).1 fs')
    (hother : ∀ o ∈ os, fs.target o.entry.output ∉ written) :
    buildFiles false fs' os = (fs', (buildFiles false fs os).2.map again) :=
  buildFiles_of_settled (buildFiles_settled htree hos hdistinct h hother)

end DelphiUnits.Build

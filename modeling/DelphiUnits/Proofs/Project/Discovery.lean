import DelphiUnits.Proofs.Project.Documents

/-!
# Discovering documents

Whoever asks a project for its entries gets one for each document below the input root, in the order
of their places, and nothing else. Each has an output of its own, and what becomes of it depends on
nothing but where the document lies and what it holds: other documents, whether they fail or not, do
not matter.

The only way to get nothing at all is an input root that cannot be listed. That is so if it leads
nowhere, and also if a directory below it has a path that is too long to be followed: then the
documents elsewhere are not found either.

## Main results

* `discover?_eq_documents`: what is discovered, and what becomes of it;
* `discover?_crowdedTree`: a document that is not discovered, since a directory beside it has a path
  that is too long.
-/

namespace DelphiUnits.Project

open FileSystem (IsTree IsListable Visits)

variable {p : Project} {fs : FileSystem} {root : Place}

/-! ### Order and outputs -/

/-- The documents below a place are in the order of the bytes of their names. -/
theorem pairwise_bytes_documents (htree : fs.IsTree) (root : Place) :
    (documents fs root).Pairwise fun d d' => d.place.map Text.bytes < d'.place.map Text.bytes :=
  (pairwise_documents htree root).imp fun hlt => List.map_lt (fun _ _ => Text.bytes_lt_iff.mpr) hlt

/-- **Documents at different places** have different generated files. -/
theorem eq_of_output (htree : fs.IsTree) {d d' : DocumentFile} (h : d.IsBelow root fs)
    (h' : d'.IsBelow root fs)
    (houtput : (p.entryOf d).output.components = (p.entryOf d').output.components) : d = d' := by
  rw [components_output_entryOf htree h, components_output_entryOf htree h'] at houtput
  have hnames : d.directory ++ [d.stem ++ ".pas"] = d'.directory ++ [d'.stem ++ ".pas"] :=
    List.map_injective_iff.mpr (fun _ _ => Path.Component.name.inj) (List.append_cancel_left houtput)
  exact h.eq_of_beside h' hnames

/-- No two documents below a place have the same generated file. -/
theorem pairwise_outputs (htree : fs.IsTree) (root : Place) :
    (documents fs root).Pairwise fun d d' =>
      (p.entryOf d).output.components ≠ (p.entryOf d').output.components := by
  refine (pairwise_documents htree root).imp_of_mem fun hd hd' hlt houtput => ?_
  obtain rfl := eq_of_output htree ((mem_documents_iff htree).mp hd)
    ((mem_documents_iff htree).mp hd') houtput
  exact List.lt_irrefl _ hlt

/-! ### The main file -/

/-- A file system has **no backslashes** below a place. -/
def NoBackslashBelow (root : Place) (fs : FileSystem) : Prop :=
  ∀ rest, (fs.node? (root ++ rest)).isSome = true → ∀ n ∈ rest, '\\' ∉ n.toList

/-- Names without backslashes can be read off the path they are put together to, with slashes for
backslashes. -/
theorem splitSlash_forwardSlashes {names : List String} (hne : names ≠ [])
    (hnames : ∀ n ∈ names, Path.IsName n ∧ '\\' ∉ n.toList) :
    Path.splitSlash (Text.forwardSlashes (Path.ofNames names).text).toList
      = names.map String.toList := by
  rw [Pascal.splitSlash_forwardSlashes_ofNames hne, List.map_eq_flatMap]
  exact List.flatMap_congr fun n hn => Pascal.pieces_of_not_mem (hnames n hn).1 (hnames n hn).2

/-- The names that lead to the source file of a document. -/
theorem isName_source (htree : fs.IsTree) (hback : NoBackslashBelow root fs) {d : DocumentFile}
    (h : d.IsBelow root fs) :
    ∀ n ∈ d.directory ++ [d.stem ++ ".ts"], Path.IsName n ∧ '\\' ∉ n.toList := by
  have hplace := hback d.place (by rw [h.node]; rfl)
  intro n hn
  rcases List.mem_append.mp hn with hn | hn
  · exact ⟨h.isName_directory htree n hn, hplace n (List.mem_append_left _ hn)⟩
  · obtain rfl := List.mem_singleton.mp hn
    have hfile := hplace d.fileName (by simp [DocumentFile.place])
    rw [DocumentFile.fileName, String.toList_append] at hfile
    refine ⟨h.isName_stem htree ".ts" (by decide) (by decide), ?_⟩
    rw [String.toList_append]
    intro hc
    rcases List.mem_append.mp hc with hc | hc
    · exact hfile (List.mem_append_left _ hc)
    · exact absurd hc (by decide)

/-- **Without backslashes one document at most is the main file.** -/
theorem eq_of_isMain (htree : fs.IsTree) (hback : NoBackslashBelow root fs) {d d' : DocumentFile}
    (h : d.IsBelow root fs) (h' : d'.IsBelow root fs) (hmain : (p.entryOf d).isMain = true)
    (hmain' : (p.entryOf d').isMain = true) : d = d' := by
  have htext : Text.forwardSlashes (p.entryOf d).source.text
      = Text.forwardSlashes (p.entryOf d').source.text :=
    Option.some.inj ((beq_iff_eq.mp hmain).symm.trans (beq_iff_eq.mp hmain'))
  have hcut := congrArg (fun s => Path.splitSlash s.toList) htext
  have hnames : d.directory ++ [d.stem ++ ".ts"] = d'.directory ++ [d'.stem ++ ".ts"] := by
    refine List.map_injective_iff.mpr (fun _ _ => String.toList_inj.mp) ?_
    rw [← splitSlash_forwardSlashes (by simp) (isName_source htree hback h),
      ← splitSlash_forwardSlashes (by simp) (isName_source htree hback h')]
    exact hcut
  exact h.eq_of_beside h' hnames

/-- **Without backslashes one entry at most is the main file.** -/
theorem countP_isMain_le_one (htree : fs.IsTree) (hback : NoBackslashBelow root fs) :
    ((documents fs root).map p.entryOf).countP (·.isMain) ≤ 1 := by
  have hmain : ((documents fs root).filter fun d => (p.entryOf d).isMain).Pairwise
      fun _ _ => False := by
    refine List.pairwise_filter.mpr ((pairwise_documents htree root).imp_of_mem ?_)
    intro d d' hd hd' hlt hmain hmain'
    obtain rfl := eq_of_isMain htree hback ((mem_documents_iff htree).mp hd)
      ((mem_documents_iff htree).mp hd') hmain hmain'
    exact List.lt_irrefl _ hlt
  rw [List.countP_map, List.countP_eq_length_filter]
  change ((documents fs root).filter fun d => (p.entryOf d).isMain).length ≤ 1
  generalize (documents fs root).filter (fun d => (p.entryOf d).isMain) = main at hmain ⊢
  rcases main with _ | ⟨d, _ | ⟨d', rest⟩⟩
  · simp
  · simp
  · exact (List.rel_of_pairwise_cons hmain (List.mem_cons_self : d' ∈ d' :: rest)).elim

/-- The main file is missing exactly if no entry is it. -/
theorem missingMain?_eq_main_iff {entries : List Entry}
    (hentries : ∀ e ∈ entries, e.isMain = true → p.main ≠ none) :
    (p.missingMain? entries = p.main ↔ ∀ e ∈ entries, e.isMain = false) ∧
      (p.missingMain? entries = p.main ∨ p.missingMain? entries = none) := by
  rw [missingMain?]
  by_cases hany : entries.any (·.isMain) = true
  · obtain ⟨e, he, hmain⟩ := List.any_eq_true.mp hany
    rw [if_pos hany]
    refine ⟨⟨fun h => absurd h.symm (hentries e he hmain), fun h => ?_⟩, .inr rfl⟩
    rw [h e he] at hmain
    cases hmain
  · rw [if_neg hany]
    refine ⟨⟨fun _ e he => Bool.eq_false_iff.mpr fun hmain => ?_, fun _ => rfl⟩, .inl rfl⟩
    exact hany (List.any_eq_true.mpr ⟨e, he, hmain⟩)

/-! ### Discovery -/

/-- The entries are found on any depth-first visit of the input root. -/
theorem filterMap_visit (htree : fs.IsTree) {places : List Place} (h : fs.Visits root places) :
    places.filterMap p.entryOfPlace? = (documents fs root).map p.entryOf := by
  have hall : ∀ place ∈ places,
      p.entryOfPlace? place = (documentAt? fs root place).map p.entryOf := fun place hplace =>
    entryOfPlace?_eq htree ((h.mem_iff htree).mp hplace)
  rw [List.filterMap_congr hall, documents, List.map_filterMap]
  by_cases hdirectory : fs.isDirectoryAt root = true
  · rw [h.eq_filesBelow htree hdirectory]
  · -- A visit of a file comes by the file itself, which is no document below it.
    cases h with
    | file hfile =>
        rw [(htree.below_of_file hfile).1]
        rfl
    | directory names parts hroot => exact absurd hroot hdirectory

/-- **What is discovered, and what becomes of it.** The entries of a project can be listed exactly if
its input root can be. They are then those of the documents below the input root, each once, in the
order of the bytes of their names, as a depth-first visit comes by them. Their outputs are pairwise
different; without backslashes in names one at most is the main file; and the main file is missing
exactly if none is. What becomes of each document is the same in any other file system that has it at
the same place. -/
theorem discover?_eq_documents (htree : fs.IsTree) (p : Project) :
    (p.discover? fs = none ↔ ∀ root, ¬IsListable fs p.inputRoot root) ∧
    ∀ root, IsListable fs p.inputRoot root →
      ∃ (found : List DocumentFile) (outcomes : Outcomes),
        (∀ d, d ∈ found ↔ d.IsBelow root fs) ∧
        found.Pairwise (fun d d' => d.place.map Text.bytes < d'.place.map Text.bytes) ∧
        p.discover? fs = some (found.map p.entryOf) ∧
        (∃ places, fs.Visits root places) ∧
        (∀ places, fs.Visits root places →
          p.discover? fs = some (places.filterMap p.entryOfPlace?)) ∧
        found.Pairwise (fun d d' =>
          (p.entryOf d).output.components ≠ (p.entryOf d').output.components) ∧
        (NoBackslashBelow root fs → (found.map p.entryOf).countP (·.isMain) ≤ 1) ∧
        p.generateAll? fs = some outcomes ∧
        outcomes.files = found.map (fun d => ⟨p.entryOf d, p.resultOf d⟩) ∧
        (outcomes.missingMain = p.main ↔ ∀ d ∈ found, (p.entryOf d).isMain = false) ∧
        (outcomes.missingMain = p.main ∨ outcomes.missingMain = none) ∧
        ∀ (fs' : FileSystem) (root' : Place) (outcomes' : Outcomes), fs'.IsTree →
          IsListable fs' p.inputRoot root' → p.generateAll? fs' = some outcomes' →
          ∀ d : DocumentFile, d.IsBelow root fs → d.IsBelow root' fs' →
            ∃ f ∈ outcomes.files, f ∈ outcomes'.files ∧ f.entry = p.entryOf d := by
  refine ⟨discover?_eq_none_iff htree, fun root hroot => ?_⟩
  have hentries := (discover?_eq_some_iff htree).mpr ⟨root, hroot, rfl⟩
  have hmain : ∀ e ∈ (documents fs root).map p.entryOf, e.isMain = true → p.main ≠ none := by
    intro e he hmain hnone
    obtain ⟨d, -, rfl⟩ := List.mem_map.mp he
    simp [entryOf, isMain, hnone] at hmain
  obtain ⟨hmissing, hmissing'⟩ := missingMain?_eq_main_iff hmain
  refine ⟨documents fs root, p.outcomesOf (documents fs root),
    fun d => mem_documents_iff htree, pairwise_bytes_documents htree root, hentries,
    FileSystem.exists_visits fs hroot.isSome, fun places hvisit => ?_,
    pairwise_outputs htree root, countP_isMain_le_one htree,
    (generateAll?_eq_some_iff htree).mpr ⟨root, hroot, rfl⟩, rfl, ?_, hmissing', ?_⟩
  · rw [hentries, filterMap_visit htree hvisit]
  · rw [outcomesOf, hmissing]
    exact List.forall_mem_map
  · intro fs' root' outcomes' htree' hroot' houtcomes' d hd hd'
    obtain ⟨place, hplace, rfl⟩ := (generateAll?_eq_some_iff htree').mp houtcomes'
    obtain rfl : place = root' := Option.some.inj (hplace.locate.symm.trans hroot'.locate)
    exact ⟨⟨p.entryOf d, p.resultOf d⟩,
      List.mem_map.mpr ⟨d, (mem_documents_iff htree).mpr hd, rfl⟩,
      List.mem_map.mpr ⟨d, (mem_documents_iff htree').mpr hd', rfl⟩, rfl⟩

/-- A tree with documents in two directories. -/
def nestedTree : FileSystem where
  nodes := [(["in"], .directory), (["in", "a"], .directory),
    (["in", "a", ".ast.json"], .file "{}".toUTF8), (["in", "a", "z.ast.json"], .file "{}".toUTF8),
    (["in", "a-b.ast.json"], .file "{}".toUTF8)]
  workingDirectory := []

/-- A project whose main file lies in the tree. -/
def nestedProject : Project :=
  ⟨.ofRoot ⟨"in"⟩, ⟨"out"⟩, some "a/z.ts"⟩

/-- The input root of the project can be listed. -/
theorem isListable_nestedTree : IsListable nestedTree nestedProject.inputRoot ["in"] := by
  have htree : nestedTree.IsTree := by decide
  exact (htree.isListable_iff (q := ["in"]) (by decide)).mpr ⟨rfl, by decide, by decide⟩

/-- Its entries. -/
theorem discover?_nestedTree : nestedProject.discover? nestedTree = some [
    ⟨⟨"in/a/z.ast.json"⟩, ⟨"a/z.ts"⟩, ⟨"out/a/z.pas"⟩, "z", true⟩,
    ⟨⟨"in/a-b.ast.json"⟩, ⟨"a-b.ts"⟩, ⟨"out/a-b.pas"⟩, "a-b", false⟩] := by
  have htree : nestedTree.IsTree := by decide
  have hfiles : nestedTree.filesBelow ["in"]
      = [["a", ".ast.json"], ["a", "z.ast.json"], ["a-b.ast.json"]] :=
    FileSystem.filesBelow_of_pairwise (by decide) (by decide)
  rw [discover?_of_isListable htree isListable_nestedTree, hfiles]
  decide

/-- The names in the tree have no backslashes. -/
theorem noBackslashBelow_nestedTree : NoBackslashBelow ["in"] nestedTree := by
  have hnames : ∀ place ∈ nestedTree.nodes.keys, ∀ n ∈ place, '\\' ∉ n.toList := by decide
  intro rest hrest n hn
  have hplace := (FileSystem.isSome_node?_iff (by simp)).mp hrest
  exact hnames _ hplace n (List.mem_append_right _ hn)

/-- A document in a directory comes before one whose name goes on from that of the directory, and a
file whose stem is empty is none. -/
theorem discover?_eq_documents_nested :
    nestedTree.IsTree ∧ ∃ (found : List DocumentFile) (outcomes : Outcomes),
      found.Pairwise (fun d d' => d.place.map Text.bytes < d'.place.map Text.bytes) ∧
      (found.map nestedProject.entryOf).map (·.output)
        = [⟨"out/a/z.pas"⟩, ⟨"out/a-b.pas"⟩] ∧
      (found.map nestedProject.entryOf).countP (·.isMain) ≤ 1 ∧
      nestedProject.generateAll? nestedTree = some outcomes ∧ outcomes.missingMain = none := by
  have htree : nestedTree.IsTree := by decide
  obtain ⟨-, hlisted⟩ := discover?_eq_documents htree nestedProject
  obtain ⟨found, outcomes, -, hsorted, hentries, -, -, -, hmain, houtcomes, -, hmissing, hnone, -⟩ :=
    hlisted ["in"] isListable_nestedTree
  have hfound := Option.some.inj (hentries.symm.trans discover?_nestedTree)
  refine ⟨htree, found, outcomes, hsorted, ?_, hmain noBackslashBelow_nestedTree, houtcomes, ?_⟩
  · rw [hfound]
    rfl
  · refine hnone.resolve_left fun h => ?_
    have hall := hmissing.mp h
    rw [← List.forall_mem_map (P := fun e : Entry => e.isMain = false), hfound] at hall
    exact absurd (hall _ List.mem_cons_self) (by decide)

/-! ### Paths that are too long -/

/-- A tree with a document and an empty directory beside it. -/
def crowdedTree : FileSystem where
  nodes := [(["in"], .directory), (["in", "a.ast.json"], .file "{}".toUTF8),
    (["in", "oooooooooooooooooooooooooooooooooooooooo"], .directory)]
  workingDirectory := []

/-- A project whose input root is written with as many slashes as leave room for the name of the
document, but not for that of the directory. -/
def crowdedProject : Project :=
  ⟨.ofRoot (Path.withSlashes ⟨"in"⟩ 4068), ⟨"out"⟩, none⟩

/-- **A document that is not discovered**, since a directory beside it has a path that is too
long. -/
theorem discover?_crowdedTree :
    crowdedTree.IsTree ∧ crowdedTree.locate? crowdedProject.inputRoot = some ["in"] ∧
      crowdedTree.isDirectoryAt ["in"] = true ∧
      DocumentFile.IsBelow ⟨[], "a", "{}".toUTF8⟩ ["in"] crowdedTree ∧
      crowdedProject.discover? crowdedTree = none := by
  have htree : crowdedTree.IsTree := by decide
  have hsize : crowdedProject.inputRoot.text.utf8ByteSize = 4070 :=
    Path.utf8ByteSize_withSlashes ⟨"in"⟩ 4068
  have hroot : crowdedTree.locate? crowdedProject.inputRoot = some ["in"] :=
    FileSystem.locate?_withSlashes (p := ⟨"in"⟩) (by decide) (by decide) (by decide)
  refine ⟨htree, hroot, by decide, ⟨by decide, rfl⟩, (discover?_eq_none_iff htree).mpr ?_⟩
  intro root hlistable
  obtain rfl := Option.some.inj (hlistable.locate.symm.trans hroot)
  have husable := hlistable.usable ["oooooooooooooooooooooooooooooooooooooooo"] (by simp) (by decide)
  have hlong := FileSystem.isUsable_join_eq_false (p := crowdedProject.inputRoot)
    (n := "oooooooooooooooooooooooooooooooooooooooo") ⟨by decide, by decide⟩ (by
      rw [hsize]
      decide)
  exact absurd (hlong.symm.trans husable) (by decide)

end DelphiUnits.Project

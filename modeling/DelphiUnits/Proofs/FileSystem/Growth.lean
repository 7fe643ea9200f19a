import DelphiUnits.Proofs.FileSystem.Walking

/-!
# File systems that grow

Making directories and writing files only ever adds to a file system: directories stay directories,
files stay files, and only the content of the files that were written changes. So whatever was made
for a path need not be made again later, and whatever was in its way still is.

## Main results

* `Grows`: how a file system can change, given the places of the files that were written;
* `makePath_grows`: making a path lets a file system grow, by directories only;
* `makePath_stable`: making a path again later comes to the same end and makes nothing.
-/

namespace DelphiUnits.FileSystem

open DelphiUnits.Path (Component Segment IsOrdinary IsName)

variable {fs fs' fs'' : FileSystem} {place q : Place} {written written' : List Place}

/-- A file system **grows**, and only files at the given places are written. -/
structure Grows (written : List Place) (before after : FileSystem) : Prop where
  /-- The working directory stays. -/
  workingDirectory : after.workingDirectory = before.workingDirectory
  /-- Directories stay directories. -/
  directory : ∀ q, before.isDirectoryAt q = true → after.isDirectoryAt q = true
  /-- Files stay files. -/
  file : ∀ q content, before.node? q = some (.file content) →
    ∃ content', after.node? q = some (.file content')
  /-- Files that are not written stay as they are, and no others come. -/
  frame : ∀ q, q ∉ written → ∀ content,
    after.node? q = some (.file content) ↔ before.node? q = some (.file content)
  /-- Trees stay trees. -/
  isTree : before.IsTree → after.IsTree

namespace Grows

/-- Nothing has changed. -/
theorem refl (fs : FileSystem) : Grows [] fs fs :=
  ⟨rfl, fun _ h => h, fun _ content h => ⟨content, h⟩, fun _ _ _ => .rfl, id⟩

/-- One change after the other. -/
theorem trans (h : Grows written fs fs') (h' : Grows written' fs' fs'') :
    Grows (written ++ written') fs fs'' := by
  refine ⟨h'.workingDirectory.trans h.workingDirectory,
    fun q hq => h'.directory q (h.directory q hq), fun q content hq => ?_,
    fun q hq content => ?_, fun htree => h'.isTree (h.isTree htree)⟩
  · obtain ⟨content', hq'⟩ := h.file q content hq
    exact h'.file q content' hq'
  · obtain ⟨hnot, hnot'⟩ := not_or.mp (mt List.mem_append.mpr hq)
    exact (h'.frame q hnot' content).trans (h.frame q hnot content)

/-- Something stays what it is, a directory or not. -/
theorem isDirectoryAt_eq (h : Grows written fs fs') (hsome : (fs.node? q).isSome = true) :
    fs'.isDirectoryAt q = fs.isDirectoryAt q := by
  by_cases hq : fs.isDirectoryAt q = true
  · rw [hq, h.directory q hq]
  · obtain ⟨content, hfile⟩ := exists_file hsome hq
    obtain ⟨content', hfile'⟩ := h.file q content hfile
    rw [isDirectoryAt_of_file hfile, isDirectoryAt_of_file hfile']

/-- Something stays something. -/
theorem isSome_node? (h : Grows written fs fs') (hsome : (fs.node? q).isSome = true) :
    (fs'.node? q).isSome = true := by
  by_cases hq : fs.isDirectoryAt q = true
  · exact isSome_of_isDirectoryAt (h.directory q hq)
  · obtain ⟨content, hfile⟩ := exists_file hsome hq
    obtain ⟨content', hfile'⟩ := h.file q content hfile
    rw [hfile']
    rfl

/-- Paths lead to the same places. -/
theorem target_eq (h : Grows written fs fs') (p : Path) : fs'.target p = fs.target p := by
  rw [target, target, stepsTarget, stepsTarget, anchor, anchor, h.workingDirectory]

/-- What could be followed can still be followed, and leads to the same place. -/
theorem walk_eq_some (h : Grows written fs fs') {segments : List Segment}
    (hq : fs.walk place segments = some q) : fs'.walk place segments = some q := by
  induction segments generalizing place with
  | nil => exact hq
  | cons s rest ih =>
      by_cases hcond : (fs.isDirectoryAt place && isNameable s) = true
      · rw [walk, if_pos hcond] at hq
        obtain ⟨hplace, hs⟩ := (Bool.and_eq_true _ _).mp hcond
        rw [walk, if_pos (by simp [h.directory place hplace, hs])]
        exact ih hq
      · rw [walk, if_neg hcond] at hq
        cases hq

/-- **Paths still lead where they led.** -/
theorem locate?_eq_some (h : Grows written fs fs') {p : Path} (hq : fs.locate? p = some q) :
    fs'.locate? p = some q := by
  have hp := (eq_target_of_locate? hq).1
  rw [locate?, if_pos hp] at hq
  have hstart : fs'.startOf p = fs.startOf p := by rw [startOf, startOf, h.workingDirectory]
  rw [locate?, if_pos hp, hstart]
  exact h.walk_eq_some hq

/-- A directory is put where nothing was. -/
theorem putAt_directory {name : String} (hname : IsFileName name)
    (hplace : fs.isDirectoryAt place = true) (hnone : fs.node? (place ++ [name]) = none) :
    Grows [] fs (fs.putAt (place ++ [name]) .directory) := by
  have hne := ne_nil_of_node?_eq_none hnone
  have hkeep {q : Place} {node : Node} (hq : fs.node? q = some node) :
      (fs.putAt (place ++ [name]) .directory).node? q = some node := by
    rw [node?_putAt hne, if_neg, hq]
    rintro rfl
    rw [hnone] at hq
    cases hq
  refine ⟨rfl, fun q hq => ?_, fun q content hq => ⟨content, hkeep hq⟩,
    fun q _ content => ⟨fun hq => ?_, hkeep⟩, fun htree => htree.putAt hplace hname fun _ => rfl⟩
  · exact isDirectoryAt_iff.mpr (hkeep (isDirectoryAt_iff.mp hq))
  · rw [node?_putAt hne] at hq
    by_cases heq : q = place ++ [name]
    · rw [if_pos heq] at hq
      cases hq
    · rwa [if_neg heq] at hq

/-- A file is put where no directory was. -/
theorem putAt_file {name : String} (hname : IsFileName name)
    (hplace : fs.isDirectoryAt place = true)
    (hfile : fs.isDirectoryAt (place ++ [name]) = false) (content : ByteArray) :
    Grows [place ++ [name]] fs (fs.putAt (place ++ [name]) (.file content)) := by
  have hne : place ++ [name] ≠ [] := by simp
  refine ⟨rfl, fun q hq => ?_, fun q old hq => ?_, fun q hq old => ?_,
    fun htree => htree.putAt hplace hname fun hdirectory => ?_⟩
  · rw [isDirectoryAt_iff, node?_putAt hne, if_neg]
    · exact isDirectoryAt_iff.mp hq
    · rintro rfl
      rw [hfile] at hq
      cases hq
  · by_cases heq : q = place ++ [name]
    · exact ⟨content, by rw [node?_putAt hne, if_pos heq]⟩
    · exact ⟨old, by rw [node?_putAt hne, if_neg heq, hq]⟩
  · rw [node?_putAt hne, if_neg (mt List.mem_singleton.mpr hq)]
  · rw [hfile] at hdirectory
    cases hdirectory

end Grows

/-! ### Making directories -/

/-- **What is made is a name in a directory**: all other segments lead to directories that are
there. -/
theorem IsTree.exists_stepFrom_eq (htree : fs.IsTree) {s : Segment}
    (hplace : fs.isDirectoryAt place = true) (hsize : isNameable s = true)
    (hslash : '/' ∉ s) (hzero : '\x00' ∉ s) (hnone : fs.node? (stepFrom place s) = none) :
    ∃ n, IsFileName n ∧ stepFrom place s = place ++ [n] := by
  have hhere : fs.node? place ≠ none := by simp [isDirectoryAt_iff.mp hplace]
  fun_cases stepFrom place s with
  | case1 => exact absurd hnone hhere
  | case2 => exact absurd hnone hhere
  | case3 =>
      have hup : fs.node? place.dropLast ≠ none := by
        rcases List.eq_nil_or_concat place with rfl | ⟨front, n, rfl⟩
        · exact hhere
        · rw [List.concat_eq_append] at hplace ⊢
          have hfront := (htree.of_concat (isSome_of_isDirectoryAt hplace)).1
          rw [List.dropLast_concat, isDirectoryAt_iff.mp hfront]
          simp
      exact absurd hnone hup
  | case4 _ h₁ h₂ h₃ =>
      have hchars : (String.ofList s).toList = s := String.toList_ofList
      refine ⟨String.ofList s, ⟨⟨?_, ?_⟩, ?_, of_decide_eq_true hsize⟩, rfl⟩
      · rw [hchars]
        exact ⟨h₁, h₂, h₃⟩
      · rwa [hchars]
      · rwa [hchars]

/-- **Making directories lets a file system grow**, by directories only. -/
theorem IsTree.makeDirectories_grows (htree : fs.IsTree) {segments : List Segment}
    (hchars : ∀ s ∈ segments, '/' ∉ s ∧ '\x00' ∉ s) :
    Grows [] fs (fs.makeDirectories place segments).1 := by
  induction segments generalizing fs place with
  | nil => exact .refl fs
  | cons s rest ih =>
      have hrest : ∀ t ∈ rest, '/' ∉ t ∧ '\x00' ∉ t := fun t ht =>
        hchars t (List.mem_cons_of_mem _ ht)
      by_cases hcond : (fs.isDirectoryAt place && isNameable s) = true
      · obtain ⟨hplace, hs⟩ := (Bool.and_eq_true _ _).mp hcond
        rw [makeDirectories_cons hplace hs]
        by_cases hnone : fs.node? (stepFrom place s) = none
        · obtain ⟨hslash, hzero⟩ := hchars s List.mem_cons_self
          obtain ⟨n, hn, hnext⟩ := htree.exists_stepFrom_eq hplace hs hslash hzero hnone
          rw [if_pos hnone, hnext]
          rw [hnext] at hnone
          have hstep := Grows.putAt_directory hn hplace hnone
          exact hstep.trans (ih (hstep.isTree htree) hrest)
        · rw [if_neg hnone]
          exact ih htree hrest
      · rw [makeDirectories, if_neg hcond]
        exact .refl fs

/-- **Making directories again** later comes to the same end and makes nothing. -/
theorem makeDirectories_stable {segments : List Segment} (hplace : (fs.node? place).isSome = true)
    (h : Grows written (fs.makeDirectories place segments).1 fs') :
    fs'.makeDirectories place segments = (fs', (fs.makeDirectories place segments).2) := by
  induction segments generalizing fs place with
  | nil =>
      rw [makeDirectories, makeDirectories]
      exact Prod.ext rfl (h.isDirectoryAt_eq hplace)
  | cons s rest ih =>
      obtain ⟨node, hnode⟩ := Option.isSome_iff_exists.mp hplace
      -- What is at the place now was there before the directories were made.
      have hsame : fs'.isDirectoryAt place = fs.isDirectoryAt place := by
        have hstays := node?_makeDirectories hnode place (s :: rest)
        rw [h.isDirectoryAt_eq (by rw [hstays]; rfl), isDirectoryAt, isDirectoryAt, hstays, hnode]
      by_cases hcond : (fs.isDirectoryAt place && isNameable s) = true
      · obtain ⟨hdirectory, hs⟩ := (Bool.and_eq_true _ _).mp hcond
        rw [makeDirectories_cons hdirectory hs] at h ⊢
        rw [makeDirectories_cons (hsame.trans hdirectory) hs]
        by_cases hnone : fs.node? (stepFrom place s) = none
        · have hmade : (fs.putAt (stepFrom place s) .directory).node? (stepFrom place s)
              = some .directory := by
            rw [node?_putAt (ne_nil_of_node?_eq_none hnone), if_pos rfl]
          have hstays := node?_makeDirectories hmade (stepFrom place s) rest
          rw [if_pos hnone] at h ⊢
          have hthere := h.isSome_node? (by rw [hstays]; rfl)
          rw [if_neg (by simp [Option.isSome_iff_ne_none.mp hthere])]
          exact ih (by rw [hmade]; rfl) h
        · obtain ⟨next, hnext⟩ := Option.ne_none_iff_exists'.mp hnone
          have hstays := node?_makeDirectories hnext (stepFrom place s) rest
          rw [if_neg hnone] at h ⊢
          have hthere := h.isSome_node? (by rw [hstays]; rfl)
          rw [if_neg (by simp [Option.isSome_iff_ne_none.mp hthere])]
          exact ih (by rw [hnext]; rfl) h
      · rw [makeDirectories, makeDirectories, if_neg hcond, hsame, if_neg hcond]

/-! ### Making paths -/

/-- The segments of a path that can be followed have no slashes and no zeros in them. -/
theorem not_mem_of_mem_startOf {p : Path} (hp : isUsable p = true) {s : Segment}
    (hs : s ∈ (fs.startOf p).2) : '/' ∉ s ∧ '\x00' ∉ s := by
  obtain ⟨-, hzero, -⟩ := isUsable_iff.mp hp
  have hmem : ∀ c ∈ s, c ≠ '/' ∧ c ∈ p.text.toList := by
    intro c hc
    revert hs
    fun_cases startOf fs p with
    | case1 rest htext =>
        intro hs
        have hrest := Path.mem_of_mem_splitSlash hs hc
        rw [htext]
        exact ⟨hrest.1, List.mem_cons_of_mem _ hrest.2⟩
    | case2 hroot => exact fun hs => Path.mem_of_mem_splitSlash hs hc
  exact ⟨fun hc => (hmem _ hc).1 rfl, fun hc => hzero (hmem _ hc).2⟩

/-- **Making a path lets a file system grow**, by directories only. -/
theorem IsTree.makePath_grows (htree : fs.IsTree) (p : Path) :
    Grows [] fs (fs.makePath p).1 := by
  rw [makePath]
  by_cases hempty : p.text = ""
  · rw [if_pos hempty]
    exact .refl fs
  · by_cases hp : isUsable p = true
    · rw [if_neg hempty, if_pos hp]
      exact htree.makeDirectories_grows fun s hs => not_mem_of_mem_startOf hp hs
    · rw [if_neg hempty, if_neg hp]
      exact .refl fs

/-- A path starts at a directory. -/
theorem IsTree.isDirectoryAt_startOf (htree : fs.IsTree) (p : Path) :
    fs.isDirectoryAt (fs.startOf p).1 = true := by
  fun_cases startOf fs p with
  | case1 rest htext => rfl
  | case2 hroot => exact htree.working

/-- **Making a path again** later comes to the same end and makes nothing. -/
theorem IsTree.makePath_stable (htree : fs.IsTree) {p : Path}
    (h : Grows written (fs.makePath p).1 fs') : fs'.makePath p = (fs', (fs.makePath p).2) := by
  rw [makePath] at h ⊢
  by_cases hempty : p.text = ""
  · rw [makePath, if_pos hempty, if_pos hempty]
  · by_cases hp : isUsable p = true
    · have hworking : fs'.workingDirectory = fs.workingDirectory := by
        have hmade := htree.makePath_grows p
        rw [makePath] at hmade
        exact h.workingDirectory.trans hmade.workingDirectory
      have hstart : fs'.startOf p = fs.startOf p := by
        rw [startOf, startOf, hworking]
      rw [if_neg hempty, if_pos hp] at h
      rw [makePath, if_neg hempty, if_pos hp, if_neg hempty, if_pos hp, hstart]
      exact makeDirectories_stable (isSome_of_isDirectoryAt (htree.isDirectoryAt_startOf p)) h
    · rw [makePath, if_neg hempty, if_neg hp, if_neg hempty, if_neg hp]

end DelphiUnits.FileSystem

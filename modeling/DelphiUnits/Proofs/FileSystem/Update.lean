import DelphiUnits.Proofs.FileSystem.Growth

/-!
# Bringing files up to date

A file is brought up to date at a path that goes on from a directory with the name of the file. The
directories on the way are made first. Whatever comes of it, the file system only grows, and the
file is the only one that is written.

Bringing the file up to date again, at any later time at which nobody else has written to it, changes
nothing and comes to the same end: a file that was written is left alone, and what failed fails
again.

## Main results

* `IsTree.update_cases`: what can come of bringing a file up to date;
* `IsTree.update_grows`: what it changes;
* `IsTree.node?_update`: what the file holds then;
* `IsTree.update_again`: what it does the next time.
-/

namespace DelphiUnits.FileSystem

open DelphiUnits.Path (IsName)

variable {fs fs' : FileSystem} {written : List Place} {p directory : Path} {n content : String}

/-! ### The directories on the way -/

/-- Make the directories on the way to a file. -/
def prepare (fs : FileSystem) (p : Path) : FileSystem × Bool :=
  fs.makePath (p.parent?.getD ⟨""⟩)

/-- A file is written in directories that were made for it. -/
theorem writeFile_eq (fs : FileSystem) (p : Path) (content : ByteArray) :
    fs.writeFile p content =
      if (fs.prepare p).2 then
        match (fs.prepare p).1.writeInto? p content with
        | some fs' => (fs', true)
        | none => ((fs.prepare p).1, false)
      else ((fs.prepare p).1, false) := by
  rw [writeFile, prepare]
  rcases p.parent? with _ | parent
  · rfl
  · rfl

/-- A path that can be followed can also be followed part of the way. -/
theorem isUsable_of_isPrefix {q : Path} (hp : isUsable p = true)
    (hq : q.text.toList <+: p.text.toList) : q.text = "" ∨ isUsable q = true := by
  obtain ⟨rest, hrest⟩ := hq
  have htext : p.text = q.text ++ String.ofList rest := by
    rw [← String.toList_inj, String.toList_append, String.toList_ofList, hrest]
  obtain ⟨-, hzero, hsize⟩ := isUsable_iff.mp hp
  rw [htext, String.toList_append, List.mem_append] at hzero
  rw [htext, String.utf8ByteSize_append] at hsize
  by_cases hempty : q.text = ""
  · exact .inl hempty
  · exact .inr (isUsable_iff.mpr ⟨hempty, fun hmem => hzero (.inl hmem), by omega⟩)

/-- The directories on the way to a file are those of its directory. -/
theorem IsTree.prepare_join (htree : fs.IsTree) (hn : IsName n)
    (hp : isUsable (directory.join ⟨n⟩) = true) :
    fs.prepare (directory.join ⟨n⟩) = fs.makeSteps directory.components := by
  obtain ⟨parent, hparent, hcomponents, hshorter⟩ :=
    Path.exists_parent?_concat (Path.components_join_name directory hn)
  rw [prepare, hparent, Option.getD_some,
    makePath_eq htree.working (isUsable_of_isPrefix hp hshorter), hcomponents]

/-- Making the directories on the way lets a file system grow. -/
theorem IsTree.prepare_grows (htree : fs.IsTree) (p : Path) : Grows [] fs (fs.prepare p).1 :=
  htree.makePath_grows _

/-- Making the directories again later makes nothing. -/
theorem IsTree.prepare_stable (htree : fs.IsTree) (h : Grows written (fs.prepare p).1 fs') :
    fs'.prepare p = (fs', (fs.prepare p).2) :=
  htree.makePath_stable h

/-- **Where a file is** does not change once the directories on the way are made. -/
theorem IsTree.locate?_iff_prepare (htree : fs.IsTree) (hn : IsName n)
    (h : Grows written (fs.prepare (directory.join ⟨n⟩)).1 fs') {q : Place} :
    fs'.locate? (directory.join ⟨n⟩) = some q ↔
      isUsable (directory.join ⟨n⟩) = true ∧ (fs.prepare (directory.join ⟨n⟩)).2 = true ∧
        isNameable n.toList = true ∧ q = fs.target directory ++ [n] := by
  have hgrown := (htree.prepare_grows (directory.join ⟨n⟩)).trans h
  have hagain := htree.prepare_stable h
  rw [locate?_join_name_iff hn, hgrown.target_eq]
  refine and_congr_right fun hp => and_congr_left fun _ => ?_
  rw [← (hgrown.isTree htree).prepare_join hn hp, hagain]
  simp

/-- A path to a file that can be followed once the directories on the way are made can be followed
ever after, and no other. -/
theorem IsTree.locate?_stable (htree : fs.IsTree) (hn : IsName n) (hp : p = directory.join ⟨n⟩)
    (h : Grows written (fs.prepare p).1 fs') : fs'.locate? p = (fs.prepare p).1.locate? p := by
  subst hp
  refine Option.ext fun q => ?_
  rw [htree.locate?_iff_prepare hn h, htree.locate?_iff_prepare hn (.refl _)]

/-- If the path to a file can be followed, no directory is missing on the way. -/
theorem IsTree.prepare_of_locate? (htree : fs.IsTree) (hn : IsName n) {q : Place}
    (hq : fs.locate? (directory.join ⟨n⟩) = some q) :
    fs.prepare (directory.join ⟨n⟩) = (fs, true) := by
  obtain ⟨hp, hsteps, -⟩ := (locate?_join_name_iff hn).mp hq
  rw [htree.prepare_join hn hp, hsteps]

/-! ### Writing -/

/-- **What can come of writing a file.** It is written, where no directory is, once the directories
on the way are made; or it fails, when only these are made. -/
theorem IsTree.write_cases (htree : fs.IsTree) (hn : IsName n) (hp : p = directory.join ⟨n⟩)
    (content : String) :
    (∃ q, (fs.prepare p).1.locate? p = some q ∧ (fs.prepare p).1.isDirectoryAt q = false ∧
      update.write fs p content
        = ((fs.prepare p).1.putAt q (.file content.toUTF8), .written)) ∨
    ((∀ q, (fs.prepare p).1.locate? p = some q → (fs.prepare p).1.isDirectoryAt q = true) ∧
      update.write fs p content = ((fs.prepare p).1, .failed)) := by
  rw [update.write, writeFile_eq]
  by_cases hmade : (fs.prepare p).2 = true
  · rw [if_pos hmade, writeInto?]
    rcases (fs.prepare p).1.locate? p with _ | q
    · exact .inr ⟨fun q hq => absurd hq (by simp), rfl⟩
    · by_cases hdirectory : (fs.prepare p).1.isDirectoryAt q = true
      · refine .inr ⟨fun q' hq' => ?_, ?_⟩
        · obtain rfl := Option.some.inj hq'
          exact hdirectory
        · simp [hdirectory]
      · exact .inl ⟨q, rfl, Bool.eq_false_iff.mpr hdirectory, by simp [hdirectory]⟩
  · rw [if_neg hmade]
    refine .inr ⟨fun q hq => ?_, rfl⟩
    subst hp
    exact absurd ((htree.locate?_iff_prepare hn (.refl _)).mp hq).2.1 hmade

/-- **What can come of bringing a file up to date.** It is left alone, if it holds the content; or
it is written; or it fails. -/
theorem IsTree.update_cases (htree : fs.IsTree) (hn : IsName n) (hp : p = directory.join ⟨n⟩)
    (content : String) :
    (∃ q, fs.locate? p = some q ∧ fs.node? q = some (.file content.toUTF8) ∧
      fs.update p content = (fs, .unchanged)) ∨
    (∃ q, (fs.prepare p).1.locate? p = some q ∧ (fs.prepare p).1.isDirectoryAt q = false ∧
      fs.update p content = ((fs.prepare p).1.putAt q (.file content.toUTF8), .written)) ∨
    ((∀ q, (fs.prepare p).1.locate? p = some q → (fs.prepare p).1.isDirectoryAt q = true) ∧
      fs.update p content = ((fs.prepare p).1, .failed)) := by
  have hwrite := htree.write_cases hn hp content
  rw [update, lookup?]
  rcases hlocate : fs.locate? p with _ | q
  · exact .inr hwrite
  rw [Option.bind_some]
  rcases hnode : fs.node? q with _ | (_ | old)
  · exact .inr hwrite
  · have hprepare : fs.prepare p = (fs, true) := by
      subst hp
      exact htree.prepare_of_locate? hn hlocate
    refine .inr (.inr ⟨fun q' hq' => ?_, by rw [hprepare]⟩)
    rw [hprepare, hlocate] at hq'
    obtain rfl := Option.some.inj hq'
    rw [hprepare, isDirectoryAt_iff, hnode]
  · by_cases hold : old.data = content.toUTF8.data
    · obtain rfl : old = content.toUTF8 := ByteArray.ext hold
      exact .inl ⟨q, rfl, hnode, if_pos rfl⟩
    · simp only [if_neg hold]
      exact .inr hwrite

/-- What became of a file that is brought up to date again. -/
def WriteResult.again : WriteResult → WriteResult
  | .written => .unchanged
  | .unchanged => .unchanged
  | .failed => .failed

/-- The place of a file, if it was written. -/
def WriteResult.places (place : Place) : WriteResult → List Place
  | .written => [place]
  | .unchanged => []
  | .failed => []

/-- A name that a path can be followed to is one that a file can have. -/
theorem isFileName_of_locate? (hn : IsName n) {q : Place}
    (hq : fs.locate? (directory.join ⟨n⟩) = some q) : IsFileName n := by
  obtain ⟨hp, -, hsize, -⟩ := (locate?_join_name_iff hn).mp hq
  refine ⟨hn, fun hzero => ?_, ?_⟩
  · obtain ⟨-, hno, -⟩ := isUsable_iff.mp hp
    rw [Path.toList_join_name directory hn, List.mem_append] at hno
    exact hno (.inr hzero)
  · rw [isNameable, String.ofList_toList] at hsize
    exact of_decide_eq_true hsize

/-- A path to a file leads into the directory of the file. -/
theorem isDirectoryAt_of_locate? (hn : IsName n) {q : Place}
    (hq : fs.locate? (directory.join ⟨n⟩) = some q) :
    fs.isDirectoryAt (fs.target directory) = true ∧ q = fs.target directory ++ [n] := by
  obtain ⟨-, hsteps, -, rfl⟩ := (locate?_join_name_iff hn).mp hq
  rw [makeSteps, makeDirectories_eq_self_iff] at hsteps
  obtain ⟨d, hd, hdirectory⟩ := hsteps
  obtain rfl : d = fs.target directory := eq_of_walk hd
  exact ⟨hdirectory, rfl⟩

/-- A file is written where a path leads. -/
theorem Grows.write (hn : IsName n) {q : Place}
    (hq : fs.locate? (directory.join ⟨n⟩) = some q) (hfile : fs.isDirectoryAt q = false)
    (content : ByteArray) : Grows [q] fs (fs.putAt q (.file content)) := by
  obtain ⟨hdirectory, rfl⟩ := isDirectoryAt_of_locate? hn hq
  exact .putAt_file (isFileName_of_locate? hn hq) hdirectory hfile content

/-- Once the directories on the way are made, the file is the only one that is written. -/
theorem IsTree.update_grows_prepare (htree : fs.IsTree) (hn : IsName n)
    (hp : p = directory.join ⟨n⟩) (content : String) :
    Grows ((fs.update p content).2.places (fs.target p)) (fs.prepare p).1
      (fs.update p content).1 := by
  rcases htree.update_cases hn hp content with
    ⟨q, hq, -, h⟩ | ⟨q, hq, hfile, h⟩ | ⟨-, h⟩ <;> rw [h]
  · subst hp
    rw [htree.prepare_of_locate? hn hq]
    exact .refl fs
  · have htarget : q = fs.target p :=
      (eq_target_of_locate? hq).2.trans ((htree.prepare_grows p).target_eq p)
    subst hp htarget
    exact .write hn hq hfile content.toUTF8
  · exact .refl _

/-- **What bringing a file up to date changes**: the file system grows, and no other file is
written. -/
theorem IsTree.update_grows (htree : fs.IsTree) (hn : IsName n) (hp : p = directory.join ⟨n⟩)
    (content : String) :
    Grows ((fs.update p content).2.places (fs.target p)) fs (fs.update p content).1 :=
  (htree.prepare_grows p).trans (htree.update_grows_prepare hn hp content)

/-- **What a file holds** that was brought up to date. -/
theorem IsTree.node?_update (htree : fs.IsTree) (hn : IsName n) (hp : p = directory.join ⟨n⟩)
    (hdone : (fs.update p content).2 ≠ .failed) :
    (fs.update p content).1.locate? p = some (fs.target p) ∧
      (fs.update p content).1.node? (fs.target p) = some (.file content.toUTF8) := by
  have hlocate := htree.locate?_stable hn hp (htree.update_grows_prepare hn hp content)
  rcases htree.update_cases hn hp content with
    ⟨q, hq, hfile, h⟩ | ⟨q, hq, -, h⟩ | ⟨-, h⟩ <;> rw [h] at hdone hlocate ⊢
  · obtain rfl := (eq_target_of_locate? hq).2
    exact ⟨hq, hfile⟩
  · have htarget : q = fs.target p :=
      (eq_target_of_locate? hq).2.trans ((htree.prepare_grows p).target_eq p)
    have hne : q ≠ [] := by
      subst hp
      rw [(isDirectoryAt_of_locate? hn hq).2]
      simp
    subst htarget
    exact ⟨hlocate.trans hq, by rw [node?_putAt hne, if_pos rfl]⟩
  · exact absurd rfl hdone

/-- A file that holds the content already is left alone. -/
theorem update_of_file {q : Place} (hq : fs.locate? p = some q)
    (hfile : fs.node? q = some (.file content.toUTF8)) :
    fs.update p content = (fs, .unchanged) := by
  rw [update, lookup?, hq, Option.bind_some, hfile]
  exact if_pos rfl

/-- **Bringing a file up to date again**, at any time before somebody else writes to it, changes
nothing and comes to the same end. -/
theorem IsTree.update_again (htree : fs.IsTree) (hn : IsName n) (hp : p = directory.join ⟨n⟩)
    (h : Grows written (fs.update p content).1 fs') (hother : fs.target p ∉ written) :
    fs'.update p content = (fs', (fs.update p content).2.again) := by
  have hlater := (htree.update_grows_prepare hn hp content).trans h
  have hlocate := htree.locate?_stable hn hp hlater
  by_cases hdone : (fs.update p content).2 = .failed
  · -- What was in the way still is.
    rcases htree.update_cases hn hp content with
      ⟨q, -, -, hresult⟩ | ⟨q, -, -, hresult⟩ | ⟨hblocked, hresult⟩
    · rw [hresult] at hdone
      cases hdone
    · rw [hresult] at hdone
      cases hdone
    have htree' := hlater.isTree ((htree.prepare_grows p).isTree htree)
    have hprepare := htree.prepare_stable hlater
    have hblocked' : ∀ q, fs'.locate? p = some q → fs'.isDirectoryAt q = true := by
      intro q hq
      exact hlater.directory q (hblocked q (hlocate ▸ hq))
    rcases htree'.update_cases hn hp content with
      ⟨q, hq, hfile, -⟩ | ⟨q, hq, hfile, -⟩ | ⟨-, hresult'⟩
    · have hdirectory := hblocked' q hq
      rw [isDirectoryAt_of_file hfile] at hdirectory
      cases hdirectory
    · rw [hprepare] at hq hfile
      rw [hblocked' q hq] at hfile
      cases hfile
    · rw [hresult', hprepare, hresult]
      rfl
  · obtain ⟨hplace, hfile⟩ := htree.node?_update hn hp hdone
    have hplace' : fs'.locate? p = some (fs.target p) := by
      rw [hlocate, ← htree.locate?_stable hn hp (htree.update_grows_prepare hn hp content), hplace]
    rw [update_of_file hplace' ((h.frame _ hother _).mpr hfile)]
    rcases hresult : (fs.update p content).2 with _ | _ | _
    · rfl
    · rfl
    · exact absurd hresult hdone

end DelphiUnits.FileSystem

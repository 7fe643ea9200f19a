import DelphiUnits.Proofs.FileSystem.Walking
import DelphiUnits.Proofs.Text.Bytes
import Mathlib.Data.List.Dedup

/-!
# Listing files

The files below a directory are listed in the order of their places, which compares the names one
after the other. Whoever visits the directory **depth first**, and the entries of each directory in
the order of their names, comes by the files in the same order: places with the same first name stand
together, and their order is that of the first names.

## Main results

* `IsTree.mem_filesBelow_iff`, `IsTree.pairwise_filesBelow`: which files are listed, and in which
  order;
* `IsTree.visits_iff`: the list is that of a depth-first visit, and there is no other;
* `IsTree.listFiles?_eq_some_iff`: which directories can be listed.
-/

namespace DelphiUnits.FileSystem

open DelphiUnits.Path (IsName)

variable {fs : FileSystem} {place : Place}

/-! ### The order of places -/

section Order

variable {α : Type}

/-- **Strictly sorted lists** with the same members are equal. -/
theorem eq_of_pairwise {r : α → α → Prop} (hasymm : ∀ a b, r a b → ¬r b a) {l₁ l₂ : List α}
    (h₁ : l₁.Pairwise r) (h₂ : l₂.Pairwise r) (hmem : ∀ a, a ∈ l₁ ↔ a ∈ l₂) : l₁ = l₂ := by
  have hnodup {l : List α} (h : l.Pairwise r) : l.Nodup := by
    refine h.imp fun hrel heq => ?_
    subst heq
    exact hasymm _ _ hrel hrel
  have hperm := (List.perm_ext_iff_of_nodup (hnodup h₁) (hnodup h₂)).mpr hmem
  exact hperm.eq_of_pairwise (fun a b _ _ hab hba => absurd hba (hasymm a b hab)) h₁ h₂

variable [LT α] [LE α] [Std.IsLinearOrder α] [Std.LawfulOrderLT α]

/-- Any members can be put into a strictly sorted list. -/
theorem exists_pairwise_lt [DecidableEq α] [DecidableLE α] (l : List α) :
    ∃ sorted : List α, sorted.Pairwise (· < ·) ∧ ∀ a, a ∈ sorted ↔ a ∈ l := by
  let sorted := l.dedup.mergeSort fun a b => decide (a ≤ b)
  have hperm : sorted.Perm l.dedup := List.mergeSort_perm _ _
  have hsorted : sorted.Pairwise (fun a b => decide (a ≤ b) = true) := by
    refine List.pairwise_mergeSort (fun a b c hab hbc => ?_) (fun a b => ?_) _
    · exact decide_eq_true (Std.le_trans (of_decide_eq_true hab) (of_decide_eq_true hbc))
    · simpa using Std.le_total (a := a) (b := b)
  have hnodup : sorted.Nodup := hperm.nodup_iff.mpr (List.nodup_dedup l)
  refine ⟨sorted, ?_, fun a => by rw [hperm.mem_iff, List.mem_dedup]⟩
  exact (hsorted.and hnodup).imp fun ⟨hle, hne⟩ =>
    Std.lt_of_le_of_ne (of_decide_eq_true hle) hne

end Order

/-- Places are compared as the lists of their names. -/
theorem placeLe_iff {a b : Place} : placeLe a b = true ↔ a < b ∨ a = b := by
  induction a generalizing b with
  | nil => cases b <;> simp [placeLe]
  | cons m as ih =>
      cases b with
      | nil => simp [placeLe]
      | cons n bs =>
          by_cases hmn : m = n
          · subst hmn
            simp [placeLe, ih]
          · simp [placeLe, hmn, List.cons_lt_cons_iff]

/-! ### The files below a place -/

/-- What is left of a place below another. -/
theorem isPrefix_and_drop_iff {p rest : Place} :
    place <+: p ∧ p.drop place.length = rest ↔ p = place ++ rest := by
  constructor
  · rintro ⟨⟨more, rfl⟩, rfl⟩
    rw [List.drop_left]
  · rintro rfl
    exact ⟨List.prefix_append place rest, List.drop_left⟩

/-- The files below a place that are listed. -/
theorem fileBelow?_eq_some_iff {entry : Place × Node} {rest : Place} :
    fileBelow? place entry = some rest ↔
      ∃ content, entry = (place ++ rest, .file content) := by
  obtain ⟨p, _ | content⟩ := entry
  · simp [fileBelow?]
  · simp [fileBelow?, isPrefix_and_drop_iff]

/-- The directories below a place that are listed. -/
theorem directoryBelow?_eq_some_iff {entry : Place × Node} {rest : Place} :
    directoryBelow? place entry = some rest ↔ entry = (place ++ rest, .directory) := by
  obtain ⟨p, _ | content⟩ := entry
  · simp [directoryBelow?, isPrefix_and_drop_iff]
  · simp [directoryBelow?]

/-- Files that come in order are listed as they come. -/
theorem filesBelow_of_pairwise {places : List Place}
    (hplaces : (fs.nodes.filterMap (fileBelow? place)).filter (!·.isEmpty) = places)
    (hsorted : places.Pairwise fun a b => placeLe a b = true) : fs.filesBelow place = places := by
  rw [filesBelow, hplaces, List.mergeSort_of_pairwise hsorted]

namespace IsTree

/-- **The files below a place** are all that are there, and not the place itself. -/
theorem mem_filesBelow_iff (htree : fs.IsTree) {rest : Place} :
    rest ∈ fs.filesBelow place ↔
      rest ≠ [] ∧ ∃ content, fs.node? (place ++ rest) = some (.file content) := by
  simp only [filesBelow, List.mem_mergeSort, List.mem_filter, List.mem_filterMap,
    fileBelow?_eq_some_iff, Bool.not_eq_true', List.isEmpty_eq_false_iff]
  constructor
  · rintro ⟨⟨entry, hmem, content, rfl⟩, hne⟩
    exact ⟨hne, content, (htree.mem_nodes_iff.mp hmem).2⟩
  · rintro ⟨hne, content, hfile⟩
    exact ⟨⟨_, htree.mem_nodes_iff.mpr ⟨by simp [hne], hfile⟩, content, rfl⟩, hne⟩

/-- The directories below a place are all that are there. -/
theorem mem_directoriesBelow_iff (htree : fs.IsTree) {rest : Place} :
    rest ∈ fs.directoriesBelow place ↔
      rest ≠ [] ∧ fs.isDirectoryAt (place ++ rest) = true := by
  simp only [directoriesBelow, List.mem_filter, List.mem_filterMap, directoryBelow?_eq_some_iff,
    Bool.not_eq_true', List.isEmpty_eq_false_iff, isDirectoryAt_iff]
  constructor
  · rintro ⟨⟨entry, hmem, rfl⟩, hne⟩
    exact ⟨hne, (htree.mem_nodes_iff.mp hmem).2⟩
  · rintro ⟨hne, hdirectory⟩
    exact ⟨⟨_, htree.mem_nodes_iff.mpr ⟨by simp [hne], hdirectory⟩, rfl⟩, hne⟩

/-- **The files below a place are in order**, and none is listed twice. -/
theorem pairwise_filesBelow (htree : fs.IsTree) (place : Place) :
    (fs.filesBelow place).Pairwise (· < ·) := by
  have hsorted : (fs.filesBelow place).Pairwise (fun a b => placeLe a b = true) := by
    refine List.pairwise_mergeSort (fun a b c hab hbc => placeLe_iff.mpr ?_) (fun a b => ?_) _
    · rcases placeLe_iff.mp hab with hab | rfl
      · rcases placeLe_iff.mp hbc with hbc | rfl
        · exact .inl (List.lt_trans hab hbc)
        · exact .inl hab
      · exact placeLe_iff.mp hbc
    · rw [Bool.or_eq_true, placeLe_iff, placeLe_iff]
      exact (List.le_total a b).imp List.le_iff_lt_or_eq.mp List.le_iff_lt_or_eq.mp
  have hkeys : fs.nodes.Pairwise fun a b => a.1 ≠ b.1 := List.pairwise_map.mp htree.nodup
  have hnodup : (fs.nodes.filterMap (fileBelow? place)).Nodup := by
    refine List.pairwise_filterMap.mpr (hkeys.imp fun hne rest hrest rest' hrest' heq => ?_)
    obtain ⟨content, rfl⟩ := fileBelow?_eq_some_iff.mp hrest
    obtain ⟨content', rfl⟩ := fileBelow?_eq_some_iff.mp hrest'
    exact hne (by rw [heq])
  have hnodup' : (fs.filesBelow place).Nodup :=
    (List.mergeSort_perm _ _).nodup_iff.mpr (hnodup.filter _)
  exact (hsorted.and hnodup').imp fun ⟨hle, hne⟩ => (placeLe_iff.mp hle).resolve_right hne

end IsTree

/-! ### Visiting a directory -/

/-- **A depth-first visit** of a place, and the files it comes by, each given by the names that lead
there from the place. The entries of a directory are visited in the order of the bytes of their
names. -/
inductive Visits (fs : FileSystem) : Place → List Place → Prop
  | file {place : Place} {content : ByteArray} :
      fs.node? place = some (.file content) → Visits fs place [[]]
  | directory {place : Place} (names : List String) (parts : String → List Place) :
      fs.isDirectoryAt place = true →
      names.Pairwise (fun m n => Text.bytes m < Text.bytes n) →
      (∀ n, n ∈ names ↔ (fs.node? (place ++ [n])).isSome = true) →
      (∀ n ∈ names, Visits fs (place ++ [n]) (parts n)) →
      Visits fs place (names.flatMap fun n => (parts n).map (n :: ·))

namespace Visits

variable {places : List Place}

/-- **A visit comes by all files** at a place and below it. -/
theorem mem_iff (htree : fs.IsTree) (h : Visits fs place places) {rest : Place} :
    rest ∈ places ↔ ∃ content, fs.node? (place ++ rest) = some (.file content) := by
  induction h generalizing rest with
  | @file place content hfile =>
      rw [List.mem_singleton]
      constructor
      · rintro rfl
        exact ⟨content, by rw [List.append_nil, hfile]⟩
      · rintro ⟨content', hbelow⟩
        by_contra hne
        rw [htree.node?_append_of_file hfile hne] at hbelow
        cases hbelow
  | @directory place names parts hdirectory hsorted hnames hparts ih =>
      simp only [List.mem_flatMap, List.mem_map]
      constructor
      · rintro ⟨n, hn, more, hmore, rfl⟩
        obtain ⟨content, hfile⟩ := (ih n hn).mp hmore
        exact ⟨content, by rw [List.append_cons]; exact hfile⟩
      · rintro ⟨content, hfile⟩
        cases rest with
        | nil =>
            rw [List.append_nil, isDirectoryAt_iff.mp hdirectory] at hfile
            cases hfile
        | cons n more =>
            rw [List.append_cons] at hfile
            have hn := (hnames n).mpr (htree.isSome_of_append (by rw [hfile]; rfl))
            exact ⟨n, hn, more, (ih n hn).mpr ⟨content, hfile⟩, rfl⟩

/-- **A visit comes by the files in order.** -/
theorem pairwise_lt (h : Visits fs place places) : places.Pairwise (· < ·) := by
  induction h with
  | file hfile => exact List.pairwise_singleton _ _
  | directory names parts hdirectory hsorted hnames hparts ih =>
      refine List.pairwise_flatMap.mpr ⟨fun n hn => ?_, ?_⟩
      · refine List.pairwise_map.mpr ((ih n hn).imp fun hlt => ?_)
        exact List.cons_lt_cons_iff.mpr (.inr ⟨rfl, hlt⟩)
      · refine hsorted.imp fun hlt x hx y hy => ?_
        obtain ⟨more, -, rfl⟩ := List.mem_map.mp hx
        obtain ⟨more', -, rfl⟩ := List.mem_map.mp hy
        exact List.cons_lt_cons_iff.mpr (.inl (Text.bytes_lt_iff.mp hlt))

/-- The list of files below a directory is that of any visit. -/
theorem eq_filesBelow (htree : fs.IsTree) (hdirectory : fs.isDirectoryAt place = true)
    (h : Visits fs place places) : places = fs.filesBelow place := by
  refine eq_of_pairwise (fun _ _ => List.lt_asymm) h.pairwise_lt
    (htree.pairwise_filesBelow place) fun rest => ?_
  rw [h.mem_iff htree, htree.mem_filesBelow_iff]
  refine ⟨fun ⟨content, hfile⟩ => ⟨?_, content, hfile⟩, And.right⟩
  rintro rfl
  rw [List.append_nil, isDirectoryAt_iff.mp hdirectory] at hfile
  cases hfile

end Visits

/-- The names of the entries of a directory, in order. -/
theorem exists_names (fs : FileSystem) (place : Place) :
    ∃ names : List String, names.Pairwise (fun m n => Text.bytes m < Text.bytes n) ∧
      ∀ n, n ∈ names ↔ (fs.node? (place ++ [n])).isSome = true := by
  obtain ⟨names, hsorted, hnames⟩ := exists_pairwise_lt
    (fs.nodes.keys.filterMap fun (p : Place) => if p.dropLast = place then p.getLast? else none)
  refine ⟨names, hsorted.imp Text.bytes_lt_iff.mpr, fun n => ?_⟩
  rw [hnames, isSome_node?_iff (by simp), List.mem_filterMap]
  constructor
  · rintro ⟨p, hp, hlast⟩
    by_cases hparent : p.dropLast = place
    · rw [if_pos hparent] at hlast
      obtain ⟨front, rfl⟩ := List.getLast?_eq_some_iff.mp hlast
      rw [List.dropLast_concat] at hparent
      rwa [hparent] at hp
    · rw [if_neg hparent] at hlast
      cases hlast
  · intro hmem
    exact ⟨place ++ [n], hmem, by simp⟩

/-- **Every place with something can be visited.** -/
theorem exists_visits (fs : FileSystem) (hsome : (fs.node? place).isSome = true) :
    ∃ places, Visits fs place places := by
  obtain ⟨depth, hdepth⟩ : ∃ depth, ∀ p ∈ fs.nodes.keys, p.length ≤ depth :=
    ⟨((fs.nodes.keys.map List.length).max?).getD 0, fun p hp =>
      List.le_max?_getD_of_mem (List.mem_map_of_mem hp)⟩
  -- The induction is on how much deeper than the place the tree goes.
  induction hk : depth - place.length using Nat.strongRecOn generalizing place with
  | ind k ih =>
      by_cases hdirectory : fs.isDirectoryAt place = true
      · obtain ⟨names, hsorted, hnames⟩ := exists_names fs place
        have hparts : ∀ n, ∃ places, n ∈ names → Visits fs (place ++ [n]) places := by
          intro n
          by_cases hn : n ∈ names
          · have hentry := (hnames n).mp hn
            have hle := hdepth _ ((isSome_node?_iff (by simp)).mp hentry)
            rw [List.length_append, List.length_singleton] at hle
            obtain ⟨places, hvisit⟩ := ih _ (by simp; omega) hentry rfl
            exact ⟨places, fun _ => hvisit⟩
          · exact ⟨[], fun hmem => absurd hmem hn⟩
        choose parts hparts using hparts
        exact ⟨_, .directory names parts hdirectory hsorted hnames hparts⟩
      · obtain ⟨content, hfile⟩ := exists_file hsome hdirectory
        exact ⟨_, .file hfile⟩

/-- **The list of files below a directory is that of a depth-first visit**, and there is no
other. -/
theorem IsTree.visits_iff (htree : fs.IsTree) (hdirectory : fs.isDirectoryAt place = true)
    {places : List Place} : Visits fs place places ↔ places = fs.filesBelow place := by
  refine ⟨fun h => h.eq_filesBelow htree hdirectory, ?_⟩
  rintro rfl
  obtain ⟨places, h⟩ := exists_visits fs (isSome_of_isDirectoryAt hdirectory)
  exact h.eq_filesBelow htree hdirectory ▸ h

/-! ### Listing what a path leads to -/

/-- A path that **can be listed**: it leads to a place with something, and the paths of all
directories below it can be followed. -/
structure IsListable (fs : FileSystem) (p : Path) (place : Place) : Prop where
  /-- The path leads to the place. -/
  locate : fs.locate? p = some place
  /-- There is something. -/
  isSome : (fs.node? place).isSome = true
  /-- The paths of the directories can be followed. -/
  usable : ∀ rest, rest ≠ [] → fs.isDirectoryAt (place ++ rest) = true →
    isUsable (p.join (.ofNames rest)) = true

/-- A path can be listed if what it leads to can be. -/
theorem IsTree.isListable_iff (htree : fs.IsTree) {p : Path} {q : Place}
    (hlocate : fs.locate? p = some q) :
    IsListable fs p place ↔ place = q ∧ (fs.node? q).isSome = true ∧
      ∀ rest ∈ fs.directoriesBelow q, isUsable (p.join (.ofNames rest)) = true := by
  simp only [htree.mem_directoriesBelow_iff]
  constructor
  · rintro ⟨hplace, hsome, husable⟩
    obtain rfl : place = q := Option.some.inj (hplace.symm.trans hlocate)
    exact ⟨rfl, hsome, fun rest ⟨hne, hrest⟩ => husable rest hne hrest⟩
  · rintro ⟨rfl, hsome, husable⟩
    exact ⟨hlocate, hsome, fun rest hne hrest => husable rest ⟨hne, hrest⟩⟩

/-- Nothing is below a file. -/
theorem IsTree.below_of_file (htree : fs.IsTree) {content : ByteArray}
    (hfile : fs.node? place = some (.file content)) :
    fs.filesBelow place = [] ∧ fs.directoriesBelow place = [] := by
  simp only [List.eq_nil_iff_forall_not_mem, htree.mem_filesBelow_iff,
    htree.mem_directoriesBelow_iff, isDirectoryAt_iff]
  constructor
  · rintro rest ⟨hne, content', hrest⟩
    rw [htree.node?_append_of_file hfile hne] at hrest
    cases hrest
  · rintro rest ⟨hne, hrest⟩
    rw [htree.node?_append_of_file hfile hne] at hrest
    cases hrest

/-- **What can be listed**, and what the list is. -/
theorem IsTree.listFiles?_eq_some_iff (htree : fs.IsTree) {p : Path} {places : List Place} :
    fs.listFiles? p = some places ↔
      ∃ place, IsListable fs p place ∧ places = fs.filesBelow place := by
  rw [listFiles?]
  rcases hlocate : fs.locate? p with _ | q
  · simp only [reduceCtorEq, false_iff]
    rintro ⟨place, ⟨hplace, -, -⟩, -⟩
    rw [hlocate] at hplace
    cases hplace
  simp only [htree.isListable_iff hlocate, and_assoc, exists_eq_left]
  rcases hnode : fs.node? q with _ | (_ | content)
  · simp
  · simp [eq_comm (a := places)]
  · obtain ⟨hfiles, hdirectories⟩ := htree.below_of_file hnode
    simp only [hfiles, hdirectories, Option.some.injEq, Option.isSome_some, List.not_mem_nil,
      false_implies, implies_true, true_and]
    exact eq_comm

/-! ### Paths that are too long -/

/-- Slashes at the end of a path do no harm as long as it is not too long. -/
theorem isUsable_withSlashes {p : Path} (hp : isUsable p = true) {count : Nat}
    (hcount : p.text.utf8ByteSize + count ≤ maxPathSize) : isUsable (p.withSlashes count) = true := by
  obtain ⟨hne, hzero, -⟩ := isUsable_iff.mp hp
  have hsize := p.utf8ByteSize_withSlashes count
  refine isUsable_iff.mpr ⟨fun hempty => ?_, fun hmem => ?_, by omega⟩
  · rw [hempty, String.utf8ByteSize_empty] at hsize
    exact hne (String.utf8ByteSize_eq_zero_iff.mp (by omega))
  · rw [Path.withSlashes, String.toList_append, String.toList_ofList] at hmem
    rcases List.mem_append.mp hmem with hmem | hmem
    · exact hzero hmem
    · exact absurd (List.eq_of_mem_replicate hmem) (by decide)

/-- Slashes at the end of a path to a directory do not change where it leads. -/
theorem locate?_withSlashes {p : Path} {q : Place} (hq : fs.locate? p = some q)
    (hdirectory : fs.isDirectoryAt q = true) {count : Nat}
    (hcount : p.text.utf8ByteSize + count ≤ maxPathSize) :
    fs.locate? (p.withSlashes count) = some q := by
  obtain ⟨hp, hsteps⟩ := locate?_directory_iff.mp ⟨q, hq, hdirectory⟩
  have hcomponents := Path.components_withSlashes (isUsable_iff.mp hp).1 count
  obtain ⟨q', hq', -⟩ := locate?_directory_iff.mpr
    ⟨isUsable_withSlashes hp hcount, hcomponents.symm ▸ hsteps⟩
  rw [hq', (eq_target_of_locate? hq').2, (eq_target_of_locate? hq).2, target, target, hcomponents]

/-- A path that goes on with a name that a file can have can be followed, if it is not too long. -/
theorem isUsable_join {p : Path} {n : String} (hp : isUsable p = true) (hn : IsFileName n)
    (hsize : p.text.utf8ByteSize + 1 + n.utf8ByteSize ≤ maxPathSize) :
    isUsable (p.join ⟨n⟩) = true := by
  obtain ⟨hne, hzero, -⟩ := isUsable_iff.mp hp
  have hlong := p.utf8ByteSize_join_le hn.isName
  have hshort := p.le_utf8ByteSize_join hn.isName
  refine isUsable_iff.mpr ⟨fun hempty => ?_, fun hmem => ?_, by omega⟩
  · rw [hempty, String.utf8ByteSize_empty] at hshort
    exact hne (String.utf8ByteSize_eq_zero_iff.mp (by omega))
  · rw [Path.toList_join_name p hn.isName, List.mem_append, List.mem_append] at hmem
    rcases hmem with (hmem | hmem) | hmem
    · exact hzero hmem
    · exact absurd (p.eq_slash_of_mem_separator hmem) (by decide)
    · exact hn.noZero hmem

/-- A path that goes on with a name may be too long. -/
theorem isUsable_join_eq_false {p : Path} {n : String} (hn : IsName n)
    (hsize : maxPathSize < p.text.utf8ByteSize + n.utf8ByteSize) :
    isUsable (p.join ⟨n⟩) = false := by
  have hle := p.le_utf8ByteSize_join hn
  refine Bool.eq_false_iff.mpr fun husable => ?_
  obtain ⟨-, -, hshort⟩ := isUsable_iff.mp husable
  omega

end DelphiUnits.FileSystem

import DelphiUnits.FileSystem
import DelphiUnits.Proofs.OrderedMap
import DelphiUnits.Proofs.Path.Segments

/-!
# Trees

The places of a file system form a **tree**: each one is in a directory, under a name that a file
can have, and each is listed once. Putting something into a directory keeps this, unless a file
takes the place of a directory.

## Main results

* `node?_putAt`: what is at each place after something was put at one;
* `IsTree.of_append`: what is above something is a directory;
* `IsTree.mem_nodes_iff`: what a tree lists is what is at its places;
* `IsTree.putAt`: trees stay trees.
-/

namespace DelphiUnits.FileSystem

open DelphiUnits.Path (IsName)

variable {fs : FileSystem} {place : Place} {node : Node} {name : String}

/-! ### What is at a place -/

/-- What is at a place other than the root is listed. -/
theorem node?_of_ne_nil (h : place ≠ []) :
    fs.node? place = (fs.nodes.find? (·.1 == place)).map Prod.snd := by
  cases place with
  | nil => exact absurd rfl h
  | cons n rest => rfl

/-- **What is at a place** after something was put somewhere. -/
theorem node?_putAt (h : place ≠ []) (q : Place) :
    (fs.putAt place node).node? q = if q = place then some node else fs.node? q := by
  by_cases hq : q = []
  · subst hq
    rw [if_neg (Ne.symm h)]
    rfl
  · rw [node?_of_ne_nil hq, node?_of_ne_nil hq, putAt]
    exact OrderedMap.find?_insert

/-- Something is at a place other than the root exactly if the place is listed. -/
theorem isSome_node?_iff (h : place ≠ []) :
    (fs.node? place).isSome = true ↔ place ∈ fs.nodes.keys := by
  rw [node?_of_ne_nil h, Option.isSome_map, List.find?_isSome, OrderedMap.keys, List.mem_map]
  simp only [beq_iff_eq]

/-- A directory is a place with a directory. -/
theorem isDirectoryAt_iff : fs.isDirectoryAt place = true ↔ fs.node? place = some .directory := by
  rw [isDirectoryAt]
  rcases fs.node? place with _ | (_ | content) <;> simp [Node.isDirectory]

/-- A directory is something. -/
theorem isSome_of_isDirectoryAt (h : fs.isDirectoryAt place = true) :
    (fs.node? place).isSome = true := by
  rw [isDirectoryAt_iff.mp h]
  rfl

/-- What is not a directory is a file. -/
theorem exists_file (hsome : (fs.node? place).isSome = true)
    (hdirectory : fs.isDirectoryAt place ≠ true) :
    ∃ content, fs.node? place = some (.file content) := by
  rcases hnode : fs.node? place with _ | (_ | content)
  · rw [hnode] at hsome
    exact absurd hsome (by simp)
  · exact absurd (isDirectoryAt_iff.mpr hnode) hdirectory
  · exact ⟨content, rfl⟩

/-- A file is not a directory. -/
theorem isDirectoryAt_of_file {content : ByteArray} (h : fs.node? place = some (.file content)) :
    fs.isDirectoryAt place = false := by
  rw [isDirectoryAt, h]
  rfl

/-! ### Trees -/

/-- A name that a file can have. -/
structure IsFileName (n : String) : Prop where
  /-- It is a name. -/
  isName : IsName n
  /-- It has no zero character in it. -/
  noZero : '\x00' ∉ n.toList
  /-- It is not too long. -/
  size_le : n.utf8ByteSize ≤ maxNameSize

instance (n : String) : Decidable (IsFileName n) :=
  decidable_of_iff ((Path.IsOrdinary n.toList ∧ '/' ∉ n.toList) ∧ '\x00' ∉ n.toList ∧
      n.utf8ByteSize ≤ maxNameSize)
    ⟨fun ⟨⟨h₁, h₂⟩, h₃, h₄⟩ => ⟨⟨h₁, h₂⟩, h₃, h₄⟩,
      fun ⟨⟨h₁, h₂⟩, h₃, h₄⟩ => ⟨⟨h₁, h₂⟩, h₃, h₄⟩⟩

/-- A file system that is a **tree**. -/
structure IsTree (fs : FileSystem) : Prop where
  /-- Each place is listed once. -/
  nodup : fs.nodes.keys.Nodup
  /-- Each place is in a directory, under a name. -/
  place : ∀ place ∈ fs.nodes.keys, ∃ parent name, place = parent ++ [name] ∧
    fs.isDirectoryAt parent = true ∧ IsFileName name
  /-- The working directory is there. -/
  working : fs.isDirectoryAt fs.workingDirectory = true

/-- Whether a file system is a tree can be seen from its list. -/
theorem isTree_iff : fs.IsTree ↔ fs.nodes.keys.Nodup ∧
    (∀ place ∈ fs.nodes.keys, ∃ n ∈ place.getLast?,
      fs.isDirectoryAt place.dropLast = true ∧ IsFileName n) ∧
    fs.isDirectoryAt fs.workingDirectory = true := by
  constructor
  · rintro ⟨hnodup, hplace, hworking⟩
    refine ⟨hnodup, fun place hmem => ?_, hworking⟩
    obtain ⟨parent, name, rfl, hparent, hname⟩ := hplace place hmem
    exact ⟨name, by simp, by rwa [List.dropLast_concat], hname⟩
  · rintro ⟨hnodup, hplace, hworking⟩
    refine ⟨hnodup, fun place hmem => ?_, hworking⟩
    obtain ⟨name, hlast, hparent, hname⟩ := hplace place hmem
    obtain ⟨parent, rfl⟩ := List.getLast?_eq_some_iff.mp hlast
    exact ⟨parent, name, rfl, by rwa [List.dropLast_concat] at hparent, hname⟩

instance (fs : FileSystem) : Decidable fs.IsTree :=
  decidable_of_iff _ isTree_iff.symm

namespace IsTree

/-- **What a tree lists** is what is at its places below the root. -/
theorem mem_nodes_iff (h : fs.IsTree) :
    (place, node) ∈ fs.nodes ↔ place ≠ [] ∧ fs.node? place = some node := by
  constructor
  · intro hmem
    have hkey : place ∈ fs.nodes.keys := List.mem_map.mpr ⟨(place, node), hmem, rfl⟩
    have hne : place ≠ [] := by
      obtain ⟨parent, name, rfl, -⟩ := h.place place hkey
      simp
    exact ⟨hne, by rw [node?_of_ne_nil hne]; exact (OrderedMap.find?_eq_some_iff h.nodup).mpr hmem⟩
  · rintro ⟨hne, hnode⟩
    rw [node?_of_ne_nil hne] at hnode
    exact (OrderedMap.find?_eq_some_iff h.nodup).mp hnode

/-- Something with a name is in a directory. -/
theorem of_concat (h : fs.IsTree) (hsome : (fs.node? (place ++ [name])).isSome = true) :
    fs.isDirectoryAt place = true ∧ IsFileName name := by
  obtain ⟨parent, last, heq, hparent, hlast⟩ :=
    h.place _ ((isSome_node?_iff (by simp)).mp hsome)
  obtain ⟨rfl, hname⟩ := List.append_inj' heq rfl
  obtain rfl : name = last := List.singleton_inj.mp hname
  exact ⟨hparent, hlast⟩

/-- **What is above something** is a directory, and what leads from there on are names. -/
theorem of_append (h : fs.IsTree) {rest : Place}
    (hsome : (fs.node? (place ++ rest)).isSome = true) :
    (rest ≠ [] → fs.isDirectoryAt place = true) ∧ ∀ n ∈ rest, IsFileName n := by
  -- The induction goes up from the end, one directory at a time.
  generalize hlength : rest.length = k
  induction k generalizing rest with
  | zero =>
      obtain rfl := List.length_eq_zero_iff.mp hlength
      exact ⟨fun hne => absurd rfl hne, fun n hn => absurd hn List.not_mem_nil⟩
  | succ k ih =>
      rcases List.eq_nil_or_concat rest with rfl | ⟨front, n, rfl⟩
      · simp at hlength
      rw [List.concat_eq_append, ← List.append_assoc] at hsome
      obtain ⟨hfront, hn⟩ := h.of_concat hsome
      obtain ⟨hplace, hnames⟩ := ih (isSome_of_isDirectoryAt hfront) (by simpa using hlength)
      refine ⟨fun _ => ?_, fun m hm => ?_⟩
      · by_cases hne : front = []
        · subst hne
          rwa [List.append_nil] at hfront
        · exact hplace hne
      · rw [List.concat_eq_append] at hm
        rcases List.mem_append.mp hm with hm | hm
        · exact hnames m hm
        · obtain rfl := List.mem_singleton.mp hm
          exact hn

/-- There is something above whatever there is. -/
theorem isSome_of_append (h : fs.IsTree) {rest : Place}
    (hsome : (fs.node? (place ++ rest)).isSome = true) : (fs.node? place).isSome = true := by
  by_cases hrest : rest = []
  · rwa [hrest, List.append_nil] at hsome
  · exact isSome_of_isDirectoryAt ((h.of_append hsome).1 hrest)

/-- A file has nothing below it. -/
theorem node?_append_of_file (h : fs.IsTree) {content : ByteArray}
    (hfile : fs.node? place = some (.file content)) {rest : Place} (hrest : rest ≠ []) :
    fs.node? (place ++ rest) = none := by
  rcases hnode : fs.node? (place ++ rest) with _ | node
  · rfl
  · have hdirectory := (h.of_append (by rw [hnode]; rfl)).1 hrest
    rw [isDirectoryAt_of_file hfile] at hdirectory
    cases hdirectory

/-- **Trees stay trees** if something is put into a directory, but for a file in the place of a
directory. -/
theorem putAt (h : fs.IsTree) (hparent : fs.isDirectoryAt place = true) (hname : IsFileName name)
    (hnode : fs.isDirectoryAt (place ++ [name]) = true → node = .directory) :
    (fs.putAt (place ++ [name]) node).IsTree := by
  have hkeep : ∀ q, fs.isDirectoryAt q = true →
      (fs.putAt (place ++ [name]) node).isDirectoryAt q = true := by
    intro q hq
    rw [isDirectoryAt_iff, node?_putAt (by simp)]
    by_cases hplace : q = place ++ [name]
    · rw [if_pos hplace, hnode (hplace ▸ hq)]
    · rw [if_neg hplace]
      exact isDirectoryAt_iff.mp hq
  refine ⟨OrderedMap.nodup_keys_insert h.nodup, fun q hq => ?_, hkeep _ h.working⟩
  rcases OrderedMap.mem_keys_insert.mp hq with rfl | hq
  · exact ⟨place, name, rfl, hkeep _ hparent, hname⟩
  · obtain ⟨parent, last, rfl, hdirectory, hlast⟩ := h.place q hq
    exact ⟨parent, last, rfl, hkeep _ hdirectory, hlast⟩

end IsTree

end DelphiUnits.FileSystem

import DelphiUnits.Proofs.FileSystem.Tree
import DelphiUnits.Proofs.Path.Files

/-!
# Following paths

A path is followed segment by segment, and the directories on its way are made segment by segment.
Both depend on the components of the path only, and not on how it is written, except that a path
may be too long to be followed at all.

The place that a path leads to, its **target**, does not depend on what is there; what is there
decides only whether the path can be followed.

## Main results

* `makePath_eq`: making a path depends on its components;
* `target_of_components`: the target of a path that goes on through names;
* `locate?_join_name_iff`: when a path to a file can be followed, and where it leads;
* `locate?_directory_iff`: when a path leads to a directory.
-/

namespace DelphiUnits

open DelphiUnits.Path (Component Segment component? isSilent IsOrdinary IsName)

namespace Path

/-- The segment that a component stands for, behind the start of a path. -/
def Component.segment? : Component → Option Segment
  | .parent => some ['.', '.']
  | .name n => some n.toList
  | .root => none
  | .current => none

/-- The segments that say something are those of the components. -/
theorem filter_not_isSilent (segments : List Segment) :
    segments.filter (!isSilent ·)
      = (segments.filterMap component?).filterMap Component.segment? := by
  have hsegment : ∀ s c, component? s = some c → c.segment? = some s := by
    intro s c hc
    fun_cases component? s with
    | case1 => simp [component?] at hc
    | case2 => simp [component?] at hc
    | case3 =>
        obtain rfl : Component.parent = c := Option.some.inj hc
        rfl
    | case4 _ h₁ h₂ h₃ =>
        have hname := component?_eq_name.mpr ⟨⟨h₁, h₂, h₃⟩, rfl⟩
        obtain rfl := Option.some.inj (hname.symm.trans hc)
        exact congrArg some String.toList_ofList
  induction segments with
  | nil => rfl
  | cons s rest ih =>
      rcases hs : component? s with _ | c
      · rw [List.filter_cons_of_neg (by simp [isSilent, hs]), ih, List.filterMap_cons_none hs]
      · rw [List.filter_cons_of_pos (by simp [isSilent, hs]), ih, List.filterMap_cons_some hs,
          List.filterMap_cons_some (hsegment s c hs)]

/-- Names, as components, stand for themselves. -/
theorem filterMap_segment?_names (names : List String) :
    (names.map Component.name).filterMap Component.segment? = names.map String.toList := by
  induction names with
  | nil => rfl
  | cons n rest ih =>
      have hn : (Component.name n).segment? = some n.toList := rfl
      rw [List.map_cons, List.filterMap_cons_some hn, ih, List.map_cons]

end Path

namespace FileSystem

variable {fs : FileSystem} {place : Place} {s : Segment} {segments : List Segment}

/-- **Which paths can be followed** at all. -/
theorem isUsable_iff {p : Path} :
    isUsable p = true ↔
      p.text ≠ "" ∧ '\x00' ∉ p.text.toList ∧ p.text.utf8ByteSize ≤ maxPathSize := by
  simp [isUsable, and_assoc]

/-! ### Steps -/

/-- A segment that says nothing leads nowhere else. -/
theorem stepFrom_of_isSilent (hs : isSilent s = true) : stepFrom place s = place := by
  rcases Path.isSilent_iff.mp hs with rfl | rfl <;> rfl

/-- A segment that says nothing is short. -/
theorem isNameable_of_isSilent (hs : isSilent s = true) : isNameable s = true := by
  rcases Path.isSilent_iff.mp hs with rfl | rfl <;> decide

/-- A name leads one step further. -/
theorem stepFrom_name {n : String} (hn : IsOrdinary n.toList) :
    stepFrom place n.toList = place ++ [n] := by
  rw [stepFrom]
  · rw [String.ofList_toList]
  · exact hn.1
  · exact hn.2.1
  · exact hn.2.2

/-- Segments that say nothing do not matter for where others lead. -/
theorem foldl_stepFrom_filter (segments : List Segment) (place : Place) :
    (segments.filter (!isSilent ·)).foldl stepFrom place = segments.foldl stepFrom place := by
  induction segments generalizing place with
  | nil => rfl
  | cons s rest ih =>
      by_cases hs : isSilent s = true
      · rw [List.filter_cons_of_neg (by simp [hs]), ih, List.foldl_cons, stepFrom_of_isSilent hs]
      · rw [List.filter_cons_of_pos (by simp [hs]), List.foldl_cons, ih, List.foldl_cons]

/-- Names lead through themselves. -/
theorem foldl_stepFrom_names {names : List String} (hnames : ∀ n ∈ names, IsName n)
    (place : Place) : (names.map String.toList).foldl stepFrom place = place ++ names := by
  induction names generalizing place with
  | nil => exact (List.append_nil place).symm
  | cons n rest ih =>
      have hn := (hnames n List.mem_cons_self).ordinary
      rw [List.map_cons, List.foldl_cons, stepFrom_name hn,
        ih (fun m hm => hnames m (List.mem_cons_of_mem _ hm)), List.append_assoc,
        List.singleton_append]

/-! ### Making directories -/

/-- From a place that is no directory nothing is made. -/
theorem makeDirectories_of_not_directory (h : fs.isDirectoryAt place ≠ true)
    (segments : List Segment) : fs.makeDirectories place segments = (fs, false) := by
  cases segments with
  | nil => rw [makeDirectories, Bool.eq_false_iff.mpr h]
  | cons s rest => rw [makeDirectories, if_neg (by simp [h])]

/-- **What one segment does** when directories are made: it makes the next place a directory if
nothing is there. -/
theorem makeDirectories_cons (hplace : fs.isDirectoryAt place = true) (hs : isNameable s = true)
    (rest : List Segment) :
    fs.makeDirectories place (s :: rest) =
      if fs.node? (stepFrom place s) = none then
        (fs.putAt (stepFrom place s) .directory).makeDirectories (stepFrom place s) rest
      else fs.makeDirectories (stepFrom place s) rest := by
  rw [makeDirectories, if_pos (by simp [hplace, hs])]
  rcases hnext : fs.node? (stepFrom place s) with _ | node
  · simp [hnext]
  · simp [hnext]

/-- Segments that say nothing make nothing. -/
theorem makeDirectories_filter (segments : List Segment) (fs : FileSystem) (place : Place) :
    fs.makeDirectories place (segments.filter (!isSilent ·))
      = fs.makeDirectories place segments := by
  induction segments generalizing fs place with
  | nil => rfl
  | cons s rest ih =>
      by_cases hplace : fs.isDirectoryAt place = true
      · by_cases hs : isSilent s = true
        · have hnode : fs.node? place ≠ none := by simp [isDirectoryAt_iff.mp hplace]
          rw [List.filter_cons_of_neg (by simp [hs]), ih,
            makeDirectories_cons hplace (isNameable_of_isSilent hs), stepFrom_of_isSilent hs,
            if_neg hnode]
        · rw [List.filter_cons_of_pos (by simp [hs]), makeDirectories, makeDirectories]
          simp only [ih]
      · rw [makeDirectories_of_not_directory hplace, makeDirectories_of_not_directory hplace]

/-- At the root there is something. -/
theorem ne_nil_of_node?_eq_none (h : fs.node? place = none) : place ≠ [] := by
  rintro rfl
  cases h

/-- What is there stays when directories are made. -/
theorem node?_makeDirectories {q : Place} {node : Node} (hq : fs.node? q = some node)
    (place : Place) (segments : List Segment) :
    (fs.makeDirectories place segments).1.node? q = some node := by
  fun_induction makeDirectories fs place segments with
  | case1 => exact hq
  | case2 fs place s rest hcond next hnext ih =>
      refine ih ?_
      rw [node?_putAt (ne_nil_of_node?_eq_none hnext), if_neg, hq]
      rintro rfl
      rw [hnext] at hq
      cases hq
  | case3 fs place s rest hcond next node hnext ih => exact ih hq
  | case4 fs place s rest hcond => exact hq

/-! ### Walking -/

/-- Segments lead where their steps lead. -/
theorem eq_of_walk {q : Place} (h : fs.walk place segments = some q) :
    q = segments.foldl stepFrom place := by
  induction segments generalizing place with
  | nil => exact (Option.some.inj h).symm
  | cons s rest ih =>
      by_cases hcond : (fs.isDirectoryAt place && isNameable s) = true
      · rw [walk, if_pos hcond] at h
        exact ih h
      · rw [walk, if_neg hcond] at h
        cases h

/-- One path after the other is followed step by step. -/
theorem walk_append (fs : FileSystem) (place : Place) (front rest : List Segment) :
    fs.walk place (front ++ rest) = (fs.walk place front).bind (fs.walk · rest) := by
  induction front generalizing place with
  | nil => rfl
  | cons s front ih =>
      rw [List.cons_append, walk, walk]
      by_cases hcond : (fs.isDirectoryAt place && isNameable s) = true
      · rw [if_pos hcond, if_pos hcond, ih]
      · rw [if_neg hcond, if_neg hcond]
        rfl

/-- A path to a directory starts at one. -/
theorem isDirectoryAt_of_walk {q : Place} (h : fs.walk place segments = some q)
    (hq : fs.isDirectoryAt q = true) : fs.isDirectoryAt place = true := by
  cases segments with
  | nil =>
      obtain rfl := Option.some.inj h
      exact hq
  | cons s rest =>
      by_cases hplace : fs.isDirectoryAt place = true
      · exact hplace
      · rw [walk, if_neg (by simp [hplace])] at h
        cases h

/-- **A path leads to a directory** exactly if nothing has to be made on its way. -/
theorem makeDirectories_eq_self_iff :
    fs.makeDirectories place segments = (fs, true) ↔
      ∃ q, fs.walk place segments = some q ∧ fs.isDirectoryAt q = true := by
  induction segments generalizing place with
  | nil => simp [makeDirectories, walk]
  | cons s rest ih =>
      by_cases hcond : (fs.isDirectoryAt place && isNameable s) = true
      · obtain ⟨hplace, hs⟩ := (Bool.and_eq_true _ _).mp hcond
        rw [walk, if_pos hcond, makeDirectories_cons hplace hs]
        by_cases hnext : fs.node? (stepFrom place s) = none
        · -- Neither side can hold, since there is nothing at the next place.
          rw [if_pos hnext]
          constructor
          · intro h
            have hmade : (fs.putAt (stepFrom place s) .directory).node? (stepFrom place s)
                = some .directory := by
              rw [node?_putAt (ne_nil_of_node?_eq_none hnext), if_pos rfl]
            have hstays := node?_makeDirectories hmade (stepFrom place s) rest
            rw [h, hnext] at hstays
            cases hstays
          · rintro ⟨q, hq, hdirectory⟩
            have hdirectory' := isDirectoryAt_iff.mp (isDirectoryAt_of_walk hq hdirectory)
            rw [hnext] at hdirectory'
            cases hdirectory'
        · rw [if_neg hnext, ih]
      · rw [walk, if_neg hcond, makeDirectories, if_neg hcond]
        simp

/-- **A path to something in a directory** can be followed exactly if nothing has to be made for
the directory. -/
theorem walk_concat_iff {q : Place} :
    fs.walk place (segments ++ [s]) = some q ↔
      fs.makeDirectories place segments = (fs, true) ∧ isNameable s = true ∧
        q = stepFrom (segments.foldl stepFrom place) s := by
  rw [walk_append, Option.bind_eq_some_iff, makeDirectories_eq_self_iff]
  constructor
  · rintro ⟨d, hd, hq⟩
    obtain rfl := eq_of_walk hd
    by_cases hcond : (fs.isDirectoryAt (segments.foldl stepFrom place) && isNameable s) = true
    · rw [walk, if_pos hcond, walk] at hq
      obtain ⟨hdirectory, hs⟩ := (Bool.and_eq_true _ _).mp hcond
      exact ⟨⟨_, hd, hdirectory⟩, hs, (Option.some.inj hq).symm⟩
    · rw [walk, if_neg hcond] at hq
      cases hq
  · rintro ⟨⟨d, hd, hdirectory⟩, hs, rfl⟩
    obtain rfl := eq_of_walk hd
    refine ⟨_, hd, ?_⟩
    rw [walk, if_pos (by simp [hdirectory, hs]), walk]

/-! ### Components -/

/-- Where the components of a path start: at the root, or else at the working directory. -/
def anchor (fs : FileSystem) (steps : List Component) : Place :=
  if .root ∈ steps then [] else fs.workingDirectory

/-- The place that components lead to. -/
def stepsTarget (fs : FileSystem) (steps : List Component) : Place :=
  (steps.filterMap Component.segment?).foldl stepFrom (fs.anchor steps)

/-- Make the directories that components lead through. -/
def makeSteps (fs : FileSystem) (steps : List Component) : FileSystem × Bool :=
  fs.makeDirectories (fs.anchor steps) (steps.filterMap Component.segment?)

/-- **Where a path starts** and how it goes on, by its components. -/
theorem startOf_eq (fs : FileSystem) (p : Path) :
    (fs.startOf p).1 = fs.anchor p.components ∧
      (fs.startOf p).2.filter (!isSilent ·) = p.components.filterMap Component.segment? := by
  have hroot (body : List Segment) : Component.root ∉ body.filterMap component? := by
    intro hmem
    obtain ⟨s, -, hs⟩ := List.mem_filterMap.mp hmem
    exact Path.component?_ne_root s hs
  rcases Path.opening_cases p with
    ⟨rest, htext, h⟩ | ⟨htext, h⟩ | ⟨rest, htext, h⟩ | ⟨h, hfirst⟩
  · rw [startOf, htext, Path.components, h, anchor, if_pos (by simp)]
    exact ⟨rfl, Path.filter_not_isSilent _⟩
  · rw [startOf, htext, Path.components, h]
    exact ⟨rfl, rfl⟩
  · rw [startOf, htext, Path.components, h, anchor, if_neg (by simp [hroot])]
    refine ⟨rfl, ?_⟩
    change (['.'] :: Path.splitSlash rest).filter _ = _
    rw [List.filter_cons_of_neg (by decide)]
    exact Path.filter_not_isSilent _
  · have hstart : fs.startOf p = (fs.workingDirectory, Path.splitSlash p.text.toList) := by
      fun_cases startOf fs p with
      | case1 rest htext =>
          rw [htext] at hfirst
          rcases hfirst with hempty | hfirst
          · cases hempty
          · exact absurd (hfirst [] rfl) (by decide)
      | case2 hslash => rfl
    rw [hstart, Path.components, h, anchor, if_neg (by simp [hroot])]
    exact ⟨rfl, Path.filter_not_isSilent _⟩

/-- The place that a path leads to, whatever is there. -/
def target (fs : FileSystem) (p : Path) : Place :=
  fs.stepsTarget p.components

/-- **Making a path** depends on its components only, if it can be followed. -/
theorem makePath_eq (htree : fs.isDirectoryAt fs.workingDirectory = true) {p : Path}
    (hp : p.text = "" ∨ isUsable p = true) : fs.makePath p = fs.makeSteps p.components := by
  obtain ⟨hstart, hbody⟩ := startOf_eq fs p
  have hmake : fs.makeDirectories (fs.startOf p).1 (fs.startOf p).2 = fs.makeSteps p.components := by
    rw [← makeDirectories_filter, hstart, hbody, makeSteps]
  rw [makePath]
  by_cases hempty : p.text = ""
  · obtain rfl : p = ⟨""⟩ := congrArg Path.mk hempty
    rw [if_pos rfl]
    change _ = (fs, fs.isDirectoryAt fs.workingDirectory)
    rw [htree]
  · rw [if_neg hempty, if_pos (hp.resolve_left hempty), hmake]

/-- What a path leads to is at its target. -/
theorem eq_target_of_locate? {p : Path} {q : Place} (h : fs.locate? p = some q) :
    isUsable p = true ∧ q = fs.target p := by
  rw [locate?] at h
  by_cases hp : isUsable p = true
  · rw [if_pos hp] at h
    obtain ⟨hstart, hbody⟩ := startOf_eq fs p
    refine ⟨hp, ?_⟩
    rw [eq_of_walk h, target, stepsTarget, ← hstart, ← hbody, foldl_stepFrom_filter]
  · rw [if_neg hp] at h
    cases h

/-- **A path leads to a directory** exactly if its components do. -/
theorem locate?_directory_iff {p : Path} :
    (∃ q, fs.locate? p = some q ∧ fs.isDirectoryAt q = true) ↔
      isUsable p = true ∧ fs.makeSteps p.components = (fs, true) := by
  obtain ⟨hstart, hbody⟩ := startOf_eq fs p
  rw [makeSteps, ← hstart, ← hbody, makeDirectories_filter, makeDirectories_eq_self_iff, locate?]
  by_cases hp : isUsable p = true
  · simp [hp]
  · simp [hp]

/-- A path that goes on with a name has it as the last segment to follow. -/
theorem exists_startOf_join (fs : FileSystem) (p : Path) {n : String} (hn : IsName n) :
    ∃ front, (fs.startOf (p.join ⟨n⟩)).2 = front ++ [n.toList] := by
  obtain ⟨front, hfront⟩ := Path.exists_splitSlash_join p hn
  fun_cases startOf fs (p.join ⟨n⟩) with
  | case1 rest htext =>
      rw [htext, Path.splitSlash, if_pos rfl] at hfront
      cases front with
      | nil => exact absurd (List.cons.inj hfront).1.symm hn.ordinary.1
      | cons s front => exact ⟨front, (List.cons.inj hfront).2⟩
  | case2 hslash => exact ⟨front, hfront⟩

/-- Names do not change where components start. -/
theorem anchor_append_names (fs : FileSystem) (steps : List Component) (names : List String) :
    fs.anchor (steps ++ names.map .name) = fs.anchor steps := by
  simp [anchor]

/-- Names lead on from where other components lead. -/
theorem stepsTarget_append_names (fs : FileSystem) (steps : List Component) {names : List String}
    (hnames : ∀ n ∈ names, IsName n) :
    fs.stepsTarget (steps ++ names.map .name) = fs.stepsTarget steps ++ names := by
  rw [stepsTarget, anchor_append_names, List.filterMap_append, Path.filterMap_segment?_names,
    List.foldl_append, foldl_stepFrom_names hnames, ← stepsTarget]

/-- **The target of a path** that goes on through names. -/
theorem target_of_components (fs : FileSystem) {p q : Path} {names : List String}
    (hnames : ∀ n ∈ names, IsName n) (hq : q.components = p.components ++ names.map .name) :
    fs.target q = fs.target p ++ names := by
  rw [target, hq, stepsTarget_append_names fs _ hnames, target]

/-- **A path to a file**: when it can be followed, and where it leads. -/
theorem locate?_join_name_iff {p : Path} {n : String} (hn : IsName n) {q : Place} :
    fs.locate? (p.join ⟨n⟩) = some q ↔
      isUsable (p.join ⟨n⟩) = true ∧ fs.makeSteps p.components = (fs, true) ∧
        isNameable n.toList = true ∧ q = fs.target p ++ [n] := by
  obtain ⟨front, hfront⟩ := exists_startOf_join fs p hn
  obtain ⟨hstart, hbody⟩ := startOf_eq fs (p.join ⟨n⟩)
  have hsays : front.filter (!isSilent ·) = p.components.filterMap Component.segment? := by
    have hlast := hn.ordinary.isSilent_eq_false
    rw [hfront, Path.components_join_name p hn, List.filter_append, List.filterMap_append,
      List.filter_cons_of_pos (by simp [hlast])] at hbody
    exact (List.append_inj' hbody rfl).1
  have hanchor : (fs.startOf (p.join ⟨n⟩)).1 = fs.anchor p.components := by
    rw [hstart, Path.components_join_name p hn]
    exact anchor_append_names fs p.components [n]
  rw [locate?, hanchor, hfront]
  by_cases hp : isUsable (p.join ⟨n⟩) = true
  · rw [if_pos hp, walk_concat_iff, ← makeDirectories_filter, hsays, ← makeSteps,
      stepFrom_name hn.ordinary, ← foldl_stepFrom_filter, hsays, ← stepsTarget, ← target]
    simp [hp]
  · simp [hp]

/-! ### Following names in a tree -/

/-- A name that a file can have is not too long to be followed. -/
theorem IsFileName.isNameable {n : String} (hn : IsFileName n) : isNameable n.toList = true := by
  rw [FileSystem.isNameable, String.ofList_toList]
  exact decide_eq_true hn.size_le

/-- **Names that lead to something** in a tree can be followed. -/
theorem IsTree.walk_names (htree : fs.IsTree) {names : List String}
    (hsome : (fs.node? (place ++ names)).isSome = true) :
    fs.walk place (names.map String.toList) = some (place ++ names) := by
  induction names generalizing place with
  | nil => exact congrArg some (List.append_nil place).symm
  | cons n rest ih =>
      obtain ⟨hplace, hnames⟩ := htree.of_append hsome
      have hn := hnames n List.mem_cons_self
      rw [List.append_cons] at hsome ⊢
      rw [List.map_cons, walk, if_pos (by simp [hplace, hn.isNameable]),
        stepFrom_name hn.isName.ordinary]
      exact ih hsome

/-- Nothing has to be made on the way through directories that are there. -/
theorem IsTree.makeSteps_append_names (htree : fs.IsTree) {steps : List Component}
    {names : List String} (hsteps : fs.makeSteps steps = (fs, true))
    (hdirectory : fs.isDirectoryAt (fs.stepsTarget steps ++ names) = true) :
    fs.makeSteps (steps ++ names.map .name) = (fs, true) := by
  rw [makeSteps, makeDirectories_eq_self_iff] at hsteps
  obtain ⟨q, hq, -⟩ := hsteps
  obtain rfl : q = fs.stepsTarget steps := eq_of_walk hq
  rw [makeSteps, anchor_append_names, List.filterMap_append, Path.filterMap_segment?_names,
    makeDirectories_eq_self_iff]
  refine ⟨fs.stepsTarget steps ++ names, ?_, hdirectory⟩
  rw [walk_append, hq]
  exact htree.walk_names (isSome_of_isDirectoryAt hdirectory)

end FileSystem

end DelphiUnits

import DelphiUnits.Proofs.Pascal.Import

/-!
# Where imported units lie

The generated file of an imported unit is meant to lie below the output root. Its path is
**contained** if it says so itself: it is relative, and all its segments are ordinary names.

The place that an import leads to is made of ordinary names. The path is not quite that place,
though. A backslash may stand in a name, and it becomes a slash only after the names have been
looked at. A name is then cut into **pieces** that nobody has looked at, and `..\evil` is the
path `../evil.pas`.

The path is contained exactly if the pieces of all names are ordinary. The very last piece is
left out of account, since an extension is put behind it.

## Main results

* `isContained_iff`: which places have a contained path;
* `IsContained.components_join`: a contained path leads below any directory it starts from;
* `addImports_containment`: what holds of all units that imports add.
-/

namespace DelphiUnits.Pascal

open DelphiUnits.Path (Segment IsOrdinary IsName splitSlash joinSlash)

/-! ### Pieces -/

/-- The **pieces** of a name: what backslashes cut it into. -/
def pieces (name : String) : List Segment :=
  splitSlash (Text.forwardSlashes name).toList

/-- The characters of a text with slashes only. -/
theorem toList_forwardSlashes (s : String) :
    (Text.forwardSlashes s).toList = s.toList.map fun c => if c = '\\' then '/' else c :=
  String.toList_ofList

/-- Characters other than backslashes stay as they are. -/
theorem map_eq_self_of_not_mem {cs : List Char} (hback : '\\' ∉ cs) :
    (cs.map fun c => if c = '\\' then '/' else c) = cs := by
  have hkept : ∀ c ∈ cs, (if c = '\\' then '/' else c) = c := fun c hc =>
    if_neg fun (h : c = '\\') => hback (h ▸ hc)
  exact (List.map_congr_left hkept).trans (List.map_id' _)

/-- Pieces are cut from the characters of a name. -/
theorem pieces_eq (name : String) :
    pieces name = splitSlash (name.toList.map fun c => if c = '\\' then '/' else c) := by
  rw [pieces, toList_forwardSlashes]

/-- A name without backslashes is one piece. -/
theorem pieces_of_not_mem {name : String} (hname : IsName name) (hback : '\\' ∉ name.toList) :
    pieces name = [name.toList] := by
  rw [pieces_eq, map_eq_self_of_not_mem hback, Path.splitSlash_of_not_mem hname.noSlash]

/-- A path put together from names is cut into their pieces. -/
theorem splitSlash_forwardSlashes_ofNames {names : List String} (hne : names ≠ []) :
    splitSlash (Text.forwardSlashes (Path.ofNames names).text).toList = names.flatMap pieces := by
  rw [toList_forwardSlashes, Path.toList_ofNames]
  induction names with
  | nil => exact absurd rfl hne
  | cons n rest ih =>
      cases rest with
      | nil =>
          rw [List.flatMap_singleton, pieces_eq]
          rfl
      | cons m rest =>
          have hjoin : joinSlash ((n :: m :: rest).map String.toList)
              = n.toList ++ '/' :: joinSlash ((m :: rest).map String.toList) := rfl
          rw [hjoin, List.map_append, List.map_cons, if_neg (by decide),
            Path.splitSlash_append_slash, ih (by simp), ← pieces_eq, ← List.flatMap_cons]

/-- The extension goes behind the last piece. -/
theorem splitSlash_projectPath {names : List String} (hne : names ≠ []) :
    ∃ front last, names.flatMap pieces = front ++ [last] ∧
      splitSlash (projectPath (.ofNames names)).toList = front ++ [last ++ ".pas".toList] := by
  rw [← splitSlash_forwardSlashes_ofNames hne, projectPath, String.toList_append]
  exact Path.splitSlash_append _ (by decide)

/-- **Stripping the extension** of a name changes its last piece only. -/
theorem dropLast_pieces_stripExtension (name : String) :
    (pieces (stripExtension name)).dropLast = (pieces name).dropLast := by
  rcases hsplit : Path.splitExtension name.toList with ⟨stem, _ | e⟩
  · rw [stripExtension, hsplit]
  · obtain ⟨-, -, hname⟩ := Path.splitExtension_eq_some_iff.mp hsplit
    by_cases he : isSourceExtension e = true
    · -- Neither extension has a slash or a backslash in it.
      have hslash : '/' ∉ ('.' :: e).map fun c => if c = '\\' then '/' else c := by
        rcases Bool.or_eq_true_iff.mp he with h | h <;> rw [beq_iff_eq.mp h] <;> decide
      simp only [stripExtension, hsplit, he, if_true]
      rw [pieces_eq, pieces_eq, String.toList_ofList, hname, List.map_append,
        Path.dropLast_splitSlash_append _ hslash]
    · simp only [stripExtension, hsplit, he]
      rfl

/-- So does stripping the extension of the last name of a place. -/
theorem dropLast_flatMap_pieces (above : List String) (last : String) :
    ((above ++ [stripExtension last]).flatMap pieces).dropLast
      = ((above ++ [last]).flatMap pieces).dropLast := by
  have hne (name : String) : pieces name ≠ [] := Path.splitSlash_ne_nil _
  rw [List.flatMap_append, List.flatMap_append, List.flatMap_singleton, List.flatMap_singleton,
    List.dropLast_append_of_ne_nil (hne _), List.dropLast_append_of_ne_nil (hne _),
    dropLast_pieces_stripExtension]

/-! ### Contained paths -/

/-- A path of a generated file that is **contained** in the directory it starts from. -/
structure IsContained (path : String) : Prop where
  /-- There is something to follow. -/
  nonempty : path ≠ ""
  /-- It does start from there. -/
  relative : Path.isAbsolute ⟨path⟩ = false
  /-- It is the path of a generated file. -/
  extension : ∃ stem, path = stem ++ ".pas"
  /-- It goes on through names only. -/
  ordinary : ∀ s ∈ splitSlash path.toList, IsOrdinary s

/-- **A contained path leads below** any directory it starts from. -/
theorem IsContained.components_join {path : String} (h : IsContained path) (directory : Path) :
    ∃ names, names ≠ [] ∧
      (directory.join ⟨path⟩).components = directory.components ++ names.map .name := by
  have hsegments := h.ordinary
  obtain ⟨s, rest, hs⟩ := List.exists_cons_of_ne_nil (Path.splitSlash_ne_nil path.toList)
  rw [hs] at hsegments
  have hopening : Path.opening ⟨path⟩ = (none, s :: rest) :=
    Path.opening_of_isSilent_eq_false hs (hsegments s List.mem_cons_self).isSilent_eq_false
  have hnames : ∀ n ∈ (s :: rest).map String.ofList, IsOrdinary n.toList := by
    intro n hn
    obtain ⟨t, ht, rfl⟩ := List.mem_map.mp hn
    rw [String.toList_ofList]
    exact hsegments t ht
  have hback : ((s :: rest).map String.ofList).map String.toList = s :: rest := by
    simp [Function.comp_def]
  refine ⟨(s :: rest).map String.ofList, by simp, ?_⟩
  have hstart : (Path.opening ⟨path⟩).1 = none := by rw [hopening]
  rw [Path.components_join directory hstart, Path.components_of_fst_eq_none hstart, hs,
    ← Path.filterMap_component?_names hnames, hback]

/-- The path of a generated file is not empty. -/
theorem projectPath_ne_empty (relative : Path) : projectPath relative ≠ "" := by
  intro hempty
  have hlength := congrArg String.length hempty
  simp [projectPath] at hlength

/-- The path of a generated file is contained as soon as it goes through names only. -/
theorem isContained_projectPath {relative : Path}
    (h : ∀ s ∈ splitSlash (projectPath relative).toList, IsOrdinary s) :
    IsContained (projectPath relative) where
  nonempty := projectPath_ne_empty relative
  relative := by
    refine Bool.eq_false_iff.mpr fun habsolute => ?_
    obtain ⟨cs, hcs⟩ := List.head?_eq_some_iff.mp (beq_iff_eq.mp habsolute)
    have hfirst := h []
    rw [hcs] at hfirst
    exact (hfirst List.mem_cons_self).1 rfl
  extension := ⟨_, rfl⟩
  ordinary := h

/-- **Which places have a contained path**: those with ordinary pieces, the last one aside. -/
theorem isContained_iff {above : List String} {last : String} :
    IsContained (projectPath (.ofNames (above ++ [stripExtension last]))) ↔
      ∀ s ∈ ((above ++ [last]).flatMap pieces).dropLast, IsOrdinary s := by
  have hne : above ++ [stripExtension last] ≠ [] := by simp
  obtain ⟨front, piece, hpieces, hcut⟩ := splitSlash_projectPath hne
  rw [← dropLast_flatMap_pieces, hpieces, List.dropLast_concat]
  constructor
  · intro h s hs
    have hordinary := h.ordinary s
    rw [hcut] at hordinary
    exact hordinary (List.mem_append_left _ hs)
  · intro h
    refine isContained_projectPath fun s hs => ?_
    rw [hcut] at hs
    rcases List.mem_append.mp hs with hfront | hlast
    · exact h s hfront
    · obtain rfl := List.mem_singleton.mp hlast
      refine .of_length ?_
      have hextension : ".pas".toList.length = 4 := by decide
      rw [List.length_append, hextension]
      omega

/-- Without a backslash all pieces of a place are ordinary. -/
theorem LeadsTo.pieces_isOrdinary {inputRoot : Path} {specifier : String} {place : List String}
    (h : LeadsTo inputRoot specifier place) (hback : '\\' ∉ specifier.toList) :
    ∀ s ∈ place.flatMap pieces, IsOrdinary s := by
  intro s hs
  obtain ⟨n, hn, hpiece⟩ := List.mem_flatMap.mp hs
  obtain ⟨hname, hchars⟩ := h.isName hn
  rw [pieces_of_not_mem hname fun hc => hback (hchars _ hc)] at hpiece
  obtain rfl := List.mem_singleton.mp hpiece
  exact hname.ordinary

/-! ### All imports -/

/-- What is used under a path was named by an import of the project. -/
theorem classifyImport_of_usedUnit? {settings : Settings} {specifier : String}
    {imported : Imported} {used : UsedUnit} {path : String}
    (himported : classifyImport settings specifier = .ok imported)
    (hused : imported.usedUnit? = some used) (hpath : used.path = some path) :
    ∃ name, classifyImport settings specifier = .ok (.project name path) ∧
      used.name = Text.normalizeIdentifier name := by
  cases imported with
  | system name =>
      obtain rfl := Option.some.inj hused
      cases hpath
  | nothing => cases hused
  | project name p =>
      obtain rfl := Option.some.inj hused
      obtain rfl : p = path := Option.some.inj hpath
      exact ⟨name, himported, rfl⟩

/-- **What holds of all units that imports add.** The path of a unit of the project is that of a
generated file, and the unit was named by an import that leads to a place below the input root.
The path is contained exactly if the pieces of that place are ordinary, the last one aside;
without a backslash in the import it always is. A contained path leads below any output root. And
the first import that does not lead below the input root is refused, whatever comes behind it. -/
theorem addImports_containment (settings : Settings) (file : Path) (d : Draft)
    (imports : List Source.Import) :
    (∀ used ∈ (d.addImports settings file imports).1.unit.usedUnits, ∀ path,
      used.path = some path → used ∉ d.unit.usedUnits →
        path ≠ "" ∧ (∃ stem, path = stem ++ ".pas") ∧
        ∃ i ∈ imports, ∃ name place,
          classifyImport settings i.specifier = .ok (.project name path) ∧
          used.name = Text.normalizeIdentifier name ∧
          place ≠ [] ∧ LeadsTo settings.inputRoot i.specifier place ∧
          (IsContained path ↔ ∀ s ∈ (place.flatMap pieces).dropLast, IsOrdinary s) ∧
          ('\\' ∉ i.specifier.toList → IsContained path)) ∧
    (∀ path, IsContained path → ∀ outputRoot : Path, ∃ names, names ≠ [] ∧
      (outputRoot.join ⟨path⟩).components = outputRoot.components ++ names.map .name) ∧
    (∀ before i after, imports = before ++ i :: after →
      (d.addImports settings file before).2 = none →
      settings.systemPart? i.specifier = none → ¬ LeadsBelow settings.inputRoot i.specifier →
        d.addImports settings file imports =
          ((d.addImports settings file before).1, some (.importOutsideRoot file i.specifier))) := by
  refine ⟨?_, fun path hpath => hpath.components_join, ?_⟩
  · intro used hused path hpath hnew
    obtain ⟨i, hi, imported, himported, hadded⟩ := (Draft.mem_addImports hused).resolve_left hnew
    obtain ⟨name, hproject, hname⟩ := classifyImport_of_usedUnit? himported hadded hpath
    obtain ⟨-, relative, hrelative, -, -, rfl⟩ := classifyImport_eq_project_iff.mp hproject
    obtain ⟨above, last, hplace, rfl⟩ := resolveImport?_eq_some_iff.mp hrelative
    refine ⟨projectPath_ne_empty _, ⟨_, rfl⟩, i, hi, name, above ++ [last], hproject, hname,
      by simp, hplace, isContained_iff, fun hback => isContained_iff.mpr fun s hs => ?_⟩
    exact hplace.pieces_isOrdinary hback s (List.dropLast_subset _ hs)
  · rintro before i after rfl hbefore hsystem hbelow
    have hrelative := resolveImport?_eq_none_iff.mpr hbelow
    rw [Draft.addImports_append hbefore, Draft.addImports,
      classifyImport_of_resolveImport?_eq_none hsystem hrelative]
    rfl

/-- **A path that is not contained**, since a backslash in the import becomes a slash: the import
is not refused, but its file lies beside the output root. -/
theorem addImports_not_contained :
    ((Draft.empty .library "Unit").addImports (.ofRoot ⟨"/project/in"⟩) ⟨"Unit.ts"⟩
      [⟨"..\\evil"⟩]).2 = none ∧
    ((Draft.empty .library "Unit").addImports (.ofRoot ⟨"/project/in"⟩) ⟨"Unit.ts"⟩
      [⟨"..\\evil"⟩]).1.unit.usedUnits = [⟨"..\\Evil", some "../evil.pas"⟩] ∧
    ¬ IsContained "../evil.pas" ∧
    ((Path.mk "out").join ⟨"../evil.pas"⟩).components
      = [.name "out", .parent, .name "evil.pas"] := by
  refine ⟨by decide, by decide, fun hcontained => ?_, by decide⟩
  have hparent : ['.', '.'] ∈ splitSlash "../evil.pas".toList := by decide
  exact (hcontained.ordinary _ hparent).2.2 rfl

end DelphiUnits.Pascal

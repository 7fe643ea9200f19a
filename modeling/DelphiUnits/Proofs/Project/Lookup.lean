import DelphiUnits.Proofs.Path.Current
import DelphiUnits.Proofs.Report.Agreement

/-!
# Looking up a document

An entry is found in two ways: with all others below the input root, or on its own from the path of
its document. The first way takes the input root away as it is written. The second compares steps,
so that a leading `./` of the root or of the document does not count. Both arrive at the same names,
since the path of a document ends in the names below the root.

## Main results

* `relativeTo?_eq_ofNames`: where a document is found that ends in names below the root;
* `entry?_of_document`: the entry of a document is the one that is discovered;
* `FileSystem.IsTree.locate?_of_upToCurrent`: where a path leads does not depend on a leading `./`;
* `lookup_agrees_with_discovery`: looking up a document agrees with discovery.
-/

namespace DelphiUnits

open DelphiUnits.Path (IsName UpToCurrent)

/-! ### Without the current directory -/

namespace Project

variable {path : Path} {names : List String}

/-- What becomes of a path without the current directory. -/
theorem stripCurrent_cases (path : Path) :
    path.opening.1 = some .current ∧ stripCurrent path = path.drop 1 ∨
      path.opening.1 ≠ some .current ∧ stripCurrent path = path := by
  have hcurrent : Path.components ⟨"."⟩ = [.current] := by decide
  rw [stripCurrent, Path.stripBase?, hcurrent]
  rcases path.components_eq_steps with ⟨hstart, hcomponents⟩ | ⟨hstart, hcomponents⟩
  · rw [hcomponents]
    exact .inl ⟨hstart, rfl⟩
  · refine .inr ⟨hstart, ?_⟩
    have hnot : ¬[Path.Component.current].isPrefixOf path.components = true := by
      intro hstarts
      obtain ⟨rest, hrest⟩ := List.isPrefixOf_iff_prefix.mp hstarts
      have hmem : .current ∈ path.steps := by
        rw [← hcomponents, ← hrest]
        exact List.mem_cons_self
      exact absurd (List.mem_filter.mp hmem).2 (by decide)
    rw [if_neg hnot]
    rfl

/-- **Without the current directory** a path consists of its steps. -/
theorem components_stripCurrent (path : Path) : (stripCurrent path).components = path.steps := by
  rcases stripCurrent_cases path with ⟨hstart, h⟩ | ⟨hstart, h⟩ <;> rw [h]
  · obtain ⟨-, hcomponents⟩ := path.components_eq_steps.resolve_right fun hnot => hnot.1 hstart
    rw [Path.components_drop, hcomponents]
    rfl
  · exact (path.components_eq_steps.resolve_left fun hnot => hstart hnot.1).2

/-- **Without the current directory** a path ends as before. -/
theorem endsIn_stripCurrent (h : path.EndsIn names) (hne : names ≠ [])
    (hnames : ∀ n ∈ names, IsName n) : (stripCurrent path).EndsIn names := by
  rcases stripCurrent_cases path with ⟨hstart, hstrip⟩ | ⟨-, hstrip⟩ <;> rw [hstrip]
  · have hbody := Path.suffix_trimSilent (h.suffix_opening hnames) hne hnames
    have hslash : ∀ s ∈ Path.trimSilent path.opening.2, '/' ∉ s := by
      intro s hs hc
      have hmem : s ∈ path.opening.2 :=
        (List.dropWhile_suffix _).subset ((Path.trimRight_isPrefix _).subset hs)
      exact (Path.mem_of_mem_opening hmem hc).1 rfl
    have hsegments : Path.trimSilent path.opening.2 ≠ [] := by
      intro hempty
      rw [hempty, List.suffix_nil, List.map_eq_nil_iff] at hbody
      exact hne hbody
    rcases hopening : path.opening with ⟨_ | start, body⟩ <;> rw [hopening] at hstart
    · cases hstart
    rw [hopening] at hbody hslash hsegments
    have htext : (path.drop 1).text.toList = Path.joinSlash (Path.trimSilent body) := by
      rw [Path.drop, hopening]
      simp only [Path.dropComponents, String.toList_ofList]
    rw [Path.EndsIn, htext, Path.splitSlash_joinSlash hsegments hslash]
    exact hbody
  · exact h

/-! ### The entry of a document -/

variable {p : Project} {fs : FileSystem} {document : Path}

/-- **A document that ends in names below the input root** is found at these names. -/
theorem relativeTo?_eq_ofNames (hend : document.EndsIn names) (hne : names ≠ [])
    (hnames : ∀ n ∈ names, IsName n)
    (hsteps : document.steps = p.inputRoot.steps ++ names.map .name) :
    p.relativeTo? document = some (.ofNames names) := by
  have hstrip : (stripCurrent document).stripBase? (stripCurrent p.inputRoot)
      = some (.ofNames names) := by
    refine Path.stripBase?_eq_ofNames (endsIn_stripCurrent hend hne hnames) hne hnames ?_
    rw [components_stripCurrent, components_stripCurrent, hsteps]
  rw [relativeTo?, hstrip]
  rfl

/-- The same project with another input root. -/
def withInputRoot (p : Project) (root : Path) : Project :=
  { p with settings := { p.settings with inputRoot := root } }

/-- An entry depends on the path of its document in that path only, and not on the input root. -/
theorem entryAt?_withInputRoot (p : Project) (root document document' relative : Path) :
    (p.withInputRoot root).entryAt? document relative
      = (p.entryAt? document' relative).map fun e => { e with document } := by
  rw [entryAt?, entryAt?]
  rcases relative.fileName? with _ | fileName
  · rfl
  · simp only [Option.bind_eq_bind, Option.bind_some]
    rcases stem? fileName with _ | stem <;> rfl

/-- **The entry of a document that was discovered**, with or without a leading `./` of the input
root and of the document. -/
theorem entry?_of_document (htree : fs.IsTree) {root : Place} {d : DocumentFile}
    (hd : d.IsBelow root fs) {inputRoot : Path} (hroot : UpToCurrent p.inputRoot inputRoot)
    (hdocument : UpToCurrent (p.entryOf d).document document) :
    entry? (p.withInputRoot inputRoot) document = some { p.entryOf d with document } := by
  have hnames := hd.isName htree
  have hne : d.place ≠ [] := by simp [DocumentFile.place]
  have hend : document.EndsIn d.place :=
    (hdocument.endsIn_iff hnames).mpr (Path.endsIn_joinNames p.inputRoot hne hnames)
  have hsteps : document.steps = inputRoot.steps ++ d.place.map .name := by
    rw [hdocument.steps_eq, hroot.steps_eq]
    exact Path.steps_joinNames p.inputRoot hnames
  have hrelative : (p.withInputRoot inputRoot).relativeTo? document = some (.ofNames d.place) :=
    relativeTo?_eq_ofNames hend hne hnames hsteps
  have hentry : p.entryAt? (p.entryOf d).document (.ofNames d.place) = some (p.entryOf d) := by
    have hfound := entryOfPlace?_eq (p := p) htree ⟨d.content, hd.node⟩
    rw [documentAt?_eq_some_iff.mpr ⟨rfl, hd⟩] at hfound
    exact hfound
  unfold entry?
  rw [hrelative, Option.bind_some,
    entryAt?_withInputRoot p inputRoot document (p.entryOf d).document, hentry]
  rfl

end Project

/-! ### What is found at a path -/

namespace FileSystem

variable {fs : FileSystem} {q r : Path}

/-- Silent segments do not lead away from a directory. -/
theorem walk_append_of_isSilent {place : Place} (hplace : fs.isDirectoryAt place = true)
    {front : List Path.Segment} (hfront : ∀ s ∈ front, Path.isSilent s = true)
    (rest : List Path.Segment) : fs.walk place (front ++ rest) = fs.walk place rest := by
  induction front with
  | nil => rfl
  | cons s front ih =>
      obtain ⟨hs, hfront⟩ := List.forall_mem_cons.mp hfront
      rw [List.cons_append, walk, if_pos (by simp [hplace, isNameable_of_isSilent hs]),
        stepFrom_of_isSilent hs, ih hfront]

/-- A relative path starts at the working directory. -/
theorem startOf_of_relative (fs : FileSystem) (hq : q.isAbsolute = false) :
    fs.startOf q = (fs.workingDirectory, Path.splitSlash q.text.toList) := by
  fun_cases startOf fs q with
  | case1 rest htext =>
      rw [Path.isAbsolute, htext] at hq
      cases hq
  | case2 => rfl

/-- A leading `./` does not lead away from the working directory. -/
theorem IsTree.locate?_fromCurrent (htree : fs.IsTree) (hq : q.isAbsolute = false) {slashes : Nat}
    (husable : isUsable q = true) (husable' : isUsable (q.fromCurrent slashes) = true) :
    fs.locate? (q.fromCurrent slashes) = fs.locate? q := by
  obtain ⟨front, hsilent, hsplit⟩ := q.splitSlash_fromCurrent slashes
  rw [locate?, locate?, if_pos husable, if_pos husable', fs.startOf_of_relative hq,
    fs.startOf_of_relative (q.isAbsolute_fromCurrent slashes), hsplit,
    walk_append_of_isSilent htree.working hsilent]

/-- **Paths that are the same up to a leading `./`** lead to the same place, if none is too long. -/
theorem IsTree.locate?_of_upToCurrent (htree : fs.IsTree) (h : UpToCurrent q r)
    (hq : isUsable q = true) (hr : isUsable r = true) : fs.locate? r = fs.locate? q := by
  cases h with
  | refl => rfl
  | added hrelative slashes => exact htree.locate?_fromCurrent hrelative hq hr
  | dropped hrelative slashes => exact (htree.locate?_fromCurrent hrelative hr hq).symm

end FileSystem

/-! ### Lookup and discovery -/

namespace Project

variable {p : Project} {fs : FileSystem} {e : Entry} {document : Path}

/-- **A file is generated from what is read**, whatever the path of the document is. -/
theorem generateEntry_eq_ok_iff {g : GeneratedFile} :
    p.generateEntry fs e = .ok g ↔ ∃ text d, fs.readText? e.document = some text ∧
      Source.Document.parse text = .ok d ∧ generate p.settings e.request d = .ok g := by
  rw [generateEntry, readDocument]
  rcases fs.readText? e.document with _ | text
  · simp
  · rcases hparse : Source.Document.parse text with error | d <;> simp [hparse]

/-- **A file can be generated from a document at another path** to the same place. -/
theorem generateEntry_of_locate? (h : fs.locate? document = fs.locate? e.document)
    {g : GeneratedFile} :
    p.generateEntry fs { e with document } = .ok g ↔ p.generateEntry fs e = .ok g := by
  have hread : fs.readText? document = fs.readText? e.document := by
    rw [FileSystem.readText?, FileSystem.read?, FileSystem.lookup?, h]
    rfl
  rw [generateEntry_eq_ok_iff, generateEntry_eq_ok_iff, hread]
  rfl

/-- What an explanation says of an entry whose file can be generated. -/
theorem generateEntry_eq_ok_iff_explain {g : GeneratedFile} :
    p.generateEntry fs e = .ok g ↔ ∃ report, Explain.run p fs e = .ok report ∧
      report.entry = e ∧ g = .ofDraft p.settings report.draft := by
  rw [Explain.generateEntry_eq]
  rcases hrun : Explain.run p fs e with error | report
  · simp [Except.map]
  · have hentry := (Explain.exists_of_run_eq_ok hrun).1
    simp [Except.map, hentry, eq_comm]

/-- **Looking up a document agrees with discovery.** The entry of each document that is discovered
is found again at its path. It is the same, but for the path of the document, if a leading `./` is
added to a relative input root or dropped from it, and to the path of the document or from it.

So an explanation of a document is about the file that a build generates from it: it fails with the
same error, or the file is that of its draft. With a leading `./` added or dropped, it shows the
draft of the same file, as long as no path is too long to be followed. -/
theorem lookup_agrees_with_discovery {fs : FileSystem} (htree : fs.IsTree) (p : Project)
    {entries : List Entry} (h : p.discover? fs = some entries) {e : Entry} (he : e ∈ entries) :
    p.entry? e.document = some e ∧
    (∀ root document, UpToCurrent p.inputRoot root → UpToCurrent e.document document →
      entry? (p.withInputRoot root) document = some { e with document }) ∧
    ∃ outcomes, p.generateAll? fs = some outcomes ∧ ∃ o ∈ outcomes.files, o.entry = e ∧
      o.result = (Explain.run p fs e).map (fun report => .ofDraft p.settings report.draft) ∧
      ∀ document, UpToCurrent e.document document →
        FileSystem.isUsable e.document = true → FileSystem.isUsable document = true →
        ∀ g, o.result = .ok g ↔ ∃ report, Explain.run p fs { e with document } = .ok report ∧
          report.entry = { e with document } ∧ g = .ofDraft p.settings report.draft := by
  obtain ⟨root, -, rfl⟩ := (discover?_eq_some_iff htree).mp h
  obtain ⟨d, hd, rfl⟩ := List.mem_map.mp he
  have hbelow := (mem_documents_iff htree).mp hd
  refine ⟨?_, fun root document => entry?_of_document htree hbelow, ?_⟩
  · exact entry?_of_document htree hbelow (.refl _) (.refl _)
  · have houtcomes : p.generateAll? fs = some ⟨((documents fs root).map p.entryOf).map fun e =>
        ⟨e, p.generateEntry fs e⟩, p.missingMain? ((documents fs root).map p.entryOf)⟩ := by
      rw [generateAll?, h]
      rfl
    refine ⟨_, houtcomes, ⟨p.entryOf d, p.generateEntry fs (p.entryOf d)⟩,
      List.mem_map.mpr ⟨_, he, rfl⟩, rfl, Explain.generateEntry_eq p fs _, ?_⟩
    intro document hdocument husable husable' g
    have hlocate := htree.locate?_of_upToCurrent hdocument husable husable'
    rw [← generateEntry_of_locate? hlocate]
    exact generateEntry_eq_ok_iff_explain

/-- A document of the tree, looked up with a leading `./` before the input root and one with two
slashes before the document. -/
theorem lookup_agrees_nested :
    nestedTree.IsTree ∧ entry? (nestedProject.withInputRoot ⟨"./in"⟩) ⟨".//in/a/z.ast.json"⟩
      = some ⟨⟨".//in/a/z.ast.json"⟩, ⟨"a/z.ts"⟩, ⟨"out/a/z.pas"⟩, "z", true⟩ := by
  have htree : nestedTree.IsTree := by decide
  obtain ⟨-, hsame, -⟩ :=
    lookup_agrees_with_discovery htree nestedProject discover?_nestedTree List.mem_cons_self
  have hroot : UpToCurrent nestedProject.inputRoot ⟨"./in"⟩ :=
    UpToCurrent.added (p := ⟨"in"⟩) (by decide) 0
  have hdocument : UpToCurrent ⟨"in/a/z.ast.json"⟩ ⟨".//in/a/z.ast.json"⟩ :=
    UpToCurrent.added (p := ⟨"in/a/z.ast.json"⟩) (by decide) 1
  exact ⟨htree, hsame _ _ hroot hdocument⟩

end Project

end DelphiUnits

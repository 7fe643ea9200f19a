import DelphiUnits.Project
import DelphiUnits.Proofs.Pascal.Containment
import DelphiUnits.Proofs.Pascal.Header
import DelphiUnits.Proofs.Text.Identifier

/-!
# Entries and the imports that name them

The path of a generated file is computed twice: from where its document lies, when the file is
written, and from the text of an import, when another file uses the unit. The name of the unit
likewise stands in the header of its file and in the `uses` clauses of others.

Both agree. A document `<stem>.ast.json` stands for a source file `<stem>.ts`; whoever imports
that file by its path uses the unit under the path that its generated file has below the output
root, and under its name up to letter case. What the stem looks like does not matter, as long as
it is an ordinary name: it may have dots in it, or end in an extension itself.

## Main results

* `generateEntry_header`: the header of a generated file names its entry;
* `import_of_entry`: imports and generated files agree.
-/

namespace DelphiUnits

open Pascal (Draft)
open DelphiUnits.Path (IsOrdinary IsName)

/-! ### Entries -/

namespace Project

/-- **The header of the file of an entry** has the name of the entry. -/
theorem generateEntry_header {p : Project} {fs : FileSystem} {e : Entry} {g : GeneratedFile}
    (h : p.generateEntry fs e = .ok g) :
    ∃ rest, g.content = g.kind.keyword ++ " " ++ e.name ++ ";" ++ "\n" ++ rest := by
  rcases hread : readDocument fs e with error | document <;> rw [generateEntry, hread] at h
  · cases h
  · have hheader := generate_header h
    exact hheader

/-- The file name of a document gives the name of its unit. -/
theorem stem?_extension {stem : String} (hstem : stem ≠ "") :
    stem? (stem ++ Source.Document.extension) = some stem := by
  have hpos : 0 < stem.toList.length :=
    List.length_pos_iff.mpr (mt String.toList_eq_nil_iff.mp hstem)
  have hsuffix : Source.Document.extension.toList.isSuffixOf
      (stem.toList ++ Source.Document.extension.toList) = true :=
    List.isSuffixOf_iff_suffix.mpr (List.suffix_append _ _)
  rw [stem?, String.toList_append, if_pos ⟨hsuffix, by rw [List.length_append]; omega⟩,
    List.length_append, Nat.add_sub_cancel, List.take_left, String.ofList_toList]

end Project

namespace Pascal

/-- The file name of a source file, without its extension. -/
theorem stripExtension_source {stem : String} (hstem : stem ≠ "") :
    stripExtension (stem ++ ".ts") = stem := by
  have hdot : ".ts" = "." ++ "ts" := by decide
  rw [hdot, ← String.append_assoc, stripExtension_extension (.inl rfl) hstem]

/-- **The generated file of names** without backslashes is at these names. -/
theorem projectPath_ofNames {names : List String} {stem : String}
    (hback : ∀ n ∈ names ++ [stem], '\\' ∉ n.toList) :
    Path.mk (projectPath (.ofNames (names ++ [stem]))) = .ofNames (names ++ [stem ++ ".pas"]) := by
  have hsame : ((names ++ [stem]).map String.toList).map
      (List.map fun c => if c = '\\' then '/' else c) = (names ++ [stem]).map String.toList := by
    refine (List.map_congr_left fun s hs => ?_).trans (List.map_id' _)
    obtain ⟨n, hn, rfl⟩ := List.mem_map.mp hs
    exact map_eq_self_of_not_mem (hback n hn)
  refine Path.ext_toList ?_
  change (projectPath _).toList = _
  rw [projectPath, String.toList_append, toList_forwardSlashes, Path.toList_ofNames,
    Path.toList_ofNames, Path.map_joinSlash (by decide), hsame, List.map_append,
    List.map_singleton, Path.joinSlash_append_last, List.map_append, List.map_singleton,
    String.toList_append]

end Pascal

/-- The path of a document that can be imported: through names without backslashes to a file
`<stem>.ast.json`, where the stem is a name as well. -/
structure IsDocumentPath (relative : Path) (names : List String) (stem : String) : Prop where
  /-- It leads through the names to the file. -/
  components : relative.components = (names ++ [stem ++ Source.Document.extension]).map .name
  /-- There is no backslash in it. -/
  noBackslash : ∀ n ∈ names ++ [stem ++ Source.Document.extension], '\\' ∉ n.toList
  /-- The stem is a name. -/
  ordinary : IsOrdinary stem.toList

namespace IsDocumentPath

variable {relative : Path} {names : List String} {stem : String}

/-- The way to a document is through names. -/
theorem isName (h : IsDocumentPath relative names stem) :
    ∀ n ∈ names ++ [stem ++ Source.Document.extension], IsName n := by
  intro n hn
  refine (Path.isName_of_mem (p := relative) ?_).1
  rw [h.components]
  exact List.mem_map_of_mem hn

/-- A document lies in a directory that leads through the names before it. -/
theorem exists_directory (h : IsDocumentPath relative names stem) :
    ∃ directory, relative.parent? = some directory ∧
      directory.components = names.map .name ∧
      (relative = .ofNames (names ++ [stem ++ Source.Document.extension]) →
        directory = .ofNames names) := by
  obtain ⟨directory, hparent, hdirectory⟩ := Path.exists_parent? h.components
  refine ⟨directory, hparent, hdirectory, ?_⟩
  rintro rfl
  rw [Path.parent?_ofNames h.isName] at hparent
  exact (Option.some.inj hparent).symm

/-- The stem of a document is not empty. -/
theorem stem_ne_empty (h : IsDocumentPath relative names stem) : stem ≠ "" := by
  rintro rfl
  exact h.ordinary.1 rfl

/-- The stem of a document has no slashes and no backslashes in it. -/
theorem not_mem_stem (h : IsDocumentPath relative names stem) :
    '/' ∉ stem.toList ∧ '\\' ∉ stem.toList := by
  have hmem : stem ++ Source.Document.extension ∈ names ++ [stem ++ Source.Document.extension] :=
    List.mem_append_right _ List.mem_cons_self
  have hslash := (h.isName _ hmem).noSlash
  have hback := h.noBackslash _ hmem
  rw [String.toList_append] at hslash hback
  exact ⟨fun hc => hslash (List.mem_append_left _ hc), fun hc => hback (List.mem_append_left _ hc)⟩

/-- A stem with an extension is a name. -/
theorem isName_stem (h : IsDocumentPath relative names stem) (extension : String)
    (hslash : '/' ∉ extension.toList) (hlength : 2 < extension.toList.length) :
    IsName (stem ++ extension) := by
  constructor
  · refine .of_length ?_
    rw [String.toList_append, List.length_append]
    omega
  · rw [String.toList_append]
    exact fun hc => (List.mem_append.mp hc).elim h.not_mem_stem.1 hslash

/-- The way to a file beside a document is through names. -/
theorem isName_beside (h : IsDocumentPath relative names stem) {file : String}
    (hfile : IsName file) : ∀ n ∈ names ++ [file], IsName n := by
  intro n hn
  rcases List.mem_append.mp hn with hnames | hlast
  · exact h.isName n (List.mem_append_left _ hnames)
  · obtain rfl := List.mem_singleton.mp hlast
    exact hfile

/-- **The unit of a document**: what an import of its source file names. -/
theorem classifyImport_eq (h : IsDocumentPath relative names stem) {settings : Settings}
    {specifier : String}
    (hplace : Pascal.LeadsTo settings.inputRoot specifier (names ++ [stem ++ ".ts"]))
    (hsystem : settings.systemPart? specifier = none)
    (hreserved : settings.reservedWords.contains stem = false) :
    Pascal.classifyImport settings specifier =
      .ok (.project stem (Path.ofNames (names ++ [stem ++ ".pas"])).text) := by
  have hnames := h.isName_beside ⟨h.ordinary, h.not_mem_stem.1⟩
  have hback : ∀ n ∈ names ++ [stem], '\\' ∉ n.toList := by
    intro n hn
    rcases List.mem_append.mp hn with hnames | hlast
    · exact h.noBackslash n (List.mem_append_left _ hnames)
    · obtain rfl := List.mem_singleton.mp hlast
      exact h.not_mem_stem.2
  have hrelative : Pascal.resolveImport? settings.inputRoot specifier
      = some (.ofNames (names ++ [stem])) := by
    refine Pascal.resolveImport?_eq_some_iff.mpr ⟨names, stem ++ ".ts", hplace, ?_⟩
    rw [Pascal.stripExtension_source h.stem_ne_empty]
  have hname : Pascal.projectName (.ofNames (names ++ [stem])) = stem := by
    rw [Pascal.projectName, Path.fileName?_of_components (Path.components_ofNames hnames),
      Option.getD_some]
  have hpath := Pascal.projectPath_ofNames hback
  refine Pascal.classifyImport_eq_project_iff.mpr ⟨hsystem, _, hrelative, ?_, hname.symm, ?_⟩
  · rw [hname]
    exact hreserved
  · exact (congrArg Path.text hpath).symm

variable {directory : Path}

/-- The source file of a document leads through the same names. -/
theorem components_source (h : IsDocumentPath relative names stem)
    (hdirectory : directory.components = names.map .name) :
    (directory.join ⟨stem ++ ".ts"⟩).components = (names ++ [stem ++ ".ts"]).map .name := by
  have hfile := h.isName_stem ".ts" (by decide) (by decide)
  rw [Path.components_join_name directory hfile, hdirectory, List.map_append,
    List.map_singleton]

/-- The generated file of a document leads through the same names below any output root. -/
theorem components_output (h : IsDocumentPath relative names stem)
    (hdirectory : directory.components = names.map .name) (outputRoot : Path) :
    (outputRoot.join (.ofNames (names ++ [stem ++ ".pas"]))).components
      = ((outputRoot.join directory).join ⟨stem ++ ".pas"⟩).components := by
  have hfile := h.isName_stem ".pas" (by decide) (by decide)
  have hnames := Path.components_ofNames (h.isName_beside hfile)
  rw [Path.components_join_name _ hfile,
    Path.components_join _ (Path.opening_fst_eq_none hdirectory),
    Path.components_join _ (Path.opening_fst_eq_none hnames), hnames, hdirectory,
    List.map_append, List.map_singleton, List.append_assoc]

/-- It is written in the same way if the directory is. -/
theorem join_output (h : IsDocumentPath relative names stem) (outputRoot : Path) :
    outputRoot.join (.ofNames (names ++ [stem ++ ".pas"]))
      = (outputRoot.join (.ofNames names)).join ⟨stem ++ ".pas"⟩ := by
  have hname := h.isName_stem ".pas" (by decide) (by decide)
  have hnames : ∀ n ∈ names, IsName n := fun n hn => h.isName n (List.mem_append_left _ hn)
  have hfile : Path.isAbsolute ⟨stem ++ ".pas"⟩ = false :=
    Path.isAbsolute_eq_false (by simp [Path.components_name hname])
  have hdirectory : (Path.ofNames names).isAbsolute = false :=
    Path.isAbsolute_eq_false (by simp [Path.components_ofNames hnames])
  rw [Path.join_assoc _ hdirectory hfile, Path.join_ofNames hnames hname]

/-- **The entry of a document.** -/
theorem entryAt?_eq (h : IsDocumentPath relative names stem)
    (hparent : relative.parent? = some directory) (p : Project) (document : Path) :
    p.entryAt? document relative =
      some ⟨document, directory.join ⟨stem ++ ".ts"⟩,
        (p.outputRoot.join directory).join ⟨stem ++ ".pas"⟩, stem,
        p.isMain (directory.join ⟨stem ++ ".ts"⟩)⟩ := by
  have hfile := Path.fileName?_of_components h.components
  have hstem := Project.stem?_extension h.stem_ne_empty
  rw [Project.entryAt?, hfile, hparent]
  simp [hstem]

end IsDocumentPath

namespace Project

/-- **Imports and generated files agree.** A document has an entry. Whoever imports its source
file, with or without a leading `./`, uses a unit under the name of the entry in normal form,
which is up to letter case the name in the header of the file that is generated for the entry.
The path of the used unit leads from the output root to that file, and is also written in the
same way if the path of the document is. -/
theorem import_of_entry (p : Project) (document : Path) {relative : Path} {names : List String}
    {stem : String} (h : IsDocumentPath relative names stem) :
    ∃ e, p.entryAt? document relative = some e ∧ e.name = stem ∧
      Text.sameIgnoringCase (Text.normalizeIdentifier e.name) e.name = true ∧
      (∀ fs g, p.generateEntry fs e = .ok g →
        ∃ rest, g.content = g.kind.keyword ++ " " ++ e.name ++ ";" ++ "\n" ++ rest) ∧
      ∃ path, (p.outputRoot.join ⟨path⟩).components = e.output.components ∧
        (relative = .ofNames (names ++ [stem ++ Source.Document.extension]) →
          p.outputRoot.join ⟨path⟩ = e.output) ∧
        ∀ specifier, (specifier = e.source.text ∨ specifier = "./" ++ e.source.text) →
          p.settings.systemPart? specifier = none →
          p.settings.reservedWords.contains stem = false →
          ∀ (file : Path) (d : Draft) (before after : List Source.Import),
            (d.addImports p.settings file before).2 = none →
            ⟨Text.normalizeIdentifier e.name, some path⟩ ∈
              (d.addImports p.settings file (before ++ ⟨specifier⟩ :: after)).1.unit.usedUnits := by
  obtain ⟨directory, hparent, hdirectory, hcanonical⟩ := h.exists_directory
  refine ⟨_, h.entryAt?_eq hparent p document, rfl, Text.sameIgnoringCase_normalizeIdentifier _,
    fun fs g => generateEntry_header, (Path.ofNames (names ++ [stem ++ ".pas"])).text,
    h.components_output hdirectory p.outputRoot, ?_, ?_⟩
  · intro hrelative
    obtain rfl := hcanonical hrelative
    exact h.join_output p.outputRoot
  · intro specifier hspecifier hsystem hreserved file d before after hbefore
    obtain ⟨hplain, hcurrent⟩ :=
      Pascal.leadsTo_of_components p.settings.inputRoot (h.components_source hdirectory)
    have hplace : Pascal.LeadsTo p.settings.inputRoot specifier (names ++ [stem ++ ".ts"]) := by
      rcases hspecifier with rfl | rfl
      · exact hplain
      · exact hcurrent
    have hproject := h.classifyImport_eq hplace hsystem hreserved
    rw [Draft.addImports_append hbefore, Draft.addImports, hproject]
    exact Draft.mem_addImports_of_mem (Draft.mem_addImported.mpr (.inr rfl)) after

/-- A stem with dots that ends in an extension itself: its unit is used under the path of its
file. -/
theorem import_of_entry_dotted :
    IsDocumentPath ⟨"lib/my.unit.ts.ast.json"⟩ ["lib"] "my.unit.ts" ∧
    ∃ e path, (Project.mk (.ofRoot ⟨"in"⟩) ⟨"out"⟩ none).entryAt?
        ⟨"in/lib/my.unit.ts.ast.json"⟩ ⟨"lib/my.unit.ts.ast.json"⟩ = some e ∧
      (Path.mk "out").join ⟨path⟩ = e.output ∧
      ⟨"My.Unit.Ts", some path⟩ ∈ ((Draft.empty .library "Other").addImports (.ofRoot ⟨"in"⟩)
        ⟨"Other.ts"⟩ [⟨"./lib/my.unit.ts.ts"⟩]).1.unit.usedUnits := by
  have hdocument : IsDocumentPath ⟨"lib/my.unit.ts.ast.json"⟩ ["lib"] "my.unit.ts" :=
    ⟨by decide, by decide, by decide⟩
  obtain ⟨e, he, -, -, -, path, -, houtput, huses⟩ := import_of_entry
    ⟨.ofRoot ⟨"in"⟩, ⟨"out"⟩, none⟩ ⟨"in/lib/my.unit.ts.ast.json"⟩ hdocument
  have hentry : e = ⟨⟨"in/lib/my.unit.ts.ast.json"⟩, ⟨"lib/my.unit.ts.ts"⟩,
      ⟨"out/lib/my.unit.ts.pas"⟩, "my.unit.ts", false⟩ :=
    Option.some.inj (he.symm.trans (by decide))
  subst hentry
  exact ⟨hdocument, _, path, he, houtput (by decide), huses _ (.inr rfl) (by decide) (by decide)
    ⟨"Other.ts"⟩ (.empty .library "Other") [] [] rfl⟩

end Project

end DelphiUnits

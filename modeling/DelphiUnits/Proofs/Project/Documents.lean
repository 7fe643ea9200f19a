import DelphiUnits.Proofs.FileSystem.Listing
import DelphiUnits.Proofs.Path.Current
import DelphiUnits.Proofs.Project.Entry

/-!
# The documents of a project

Below the input root of a project lie its **documents**: the files with a name `<stem>.ast.json`,
where the stem is not empty. Each has an entry, which depends on where it lies only, and a result,
which depends on where it lies and on what it holds. Nothing else in the file system matters for
either.

## Main results

* `mem_documents_iff`, `pairwise_documents`: the documents below a place, and their order;
* `discover?_eq_some_iff`: the entries of a project are those of its documents;
* `discover?_eq_stripped`: they are found by taking the input root away from the paths of files;
* `generateEntry_entryOf`, `generateAll?_eq_some_iff`: what becomes of a document, and of all of
  them.
-/

namespace DelphiUnits

open DelphiUnits.Path (IsName)
open FileSystem (IsTree IsFileName IsListable)
open Pascal (DraftError)

/-- A document, with where it lies below the input root. -/
structure DocumentFile where
  /-- The names of the directories that lead to it. -/
  directory : List String
  /-- The name of its unit. -/
  stem : String
  /-- The content of the file. -/
  content : ByteArray

namespace DocumentFile

/-- The name of the file. -/
def fileName (d : DocumentFile) : String :=
  d.stem ++ ".ast.json"

/-- Where the file lies. -/
def place (d : DocumentFile) : Place :=
  d.directory ++ [d.fileName]

/-- Whether a document **lies below** a place of a file system. -/
structure IsBelow (d : DocumentFile) (root : Place) (fs : FileSystem) : Prop where
  /-- The stem is not empty. -/
  stem_ne : d.stem ≠ ""
  /-- The file is there. -/
  node : fs.node? (root ++ d.place) = some (.file d.content)

variable {d d' : DocumentFile} {root : Place} {fs : FileSystem}

/-- The name of the file ends in the extension of documents. -/
theorem fileName_eq (d : DocumentFile) : d.fileName = d.stem ++ Source.Document.extension := rfl

/-- A document leads through names that files can have. -/
theorem IsBelow.isFileName (h : d.IsBelow root fs) (htree : fs.IsTree) :
    ∀ n ∈ d.place, IsFileName n :=
  (htree.of_append (by rw [h.node]; rfl)).2

/-- A document leads through names. -/
theorem IsBelow.isName (h : d.IsBelow root fs) (htree : fs.IsTree) : ∀ n ∈ d.place, IsName n :=
  fun n hn => (h.isFileName htree n hn).isName

/-- The directories that lead to a document have names. -/
theorem IsBelow.isName_directory (h : d.IsBelow root fs) (htree : fs.IsTree) :
    ∀ n ∈ d.directory, IsName n :=
  fun n hn => h.isName htree n (List.mem_append_left _ hn)

/-- The name of a file beside a document, with another extension. -/
theorem IsBelow.isName_stem (h : d.IsBelow root fs) (htree : fs.IsTree) (extension : String)
    (hslash : '/' ∉ extension.toList) (hlength : 2 < extension.toList.length) :
    IsName (d.stem ++ extension) := by
  have hfile := (h.isName htree d.fileName (by simp [place])).noSlash
  rw [fileName, String.toList_append] at hfile
  constructor
  · refine .of_length ?_
    rw [String.toList_append, List.length_append]
    omega
  · rw [String.toList_append]
    exact fun hc => (List.mem_append.mp hc).elim (fun hs => hfile (List.mem_append_left _ hs)) hslash

/-- **There is one document** for files beside it with the same extension. -/
theorem IsBelow.eq_of_beside (h : d.IsBelow root fs) (h' : d'.IsBelow root fs) {extension : String}
    (hplace : d.directory ++ [d.stem ++ extension] = d'.directory ++ [d'.stem ++ extension]) :
    d = d' := by
  obtain ⟨directory, stem, content⟩ := d
  obtain ⟨directory', stem', content'⟩ := d'
  obtain ⟨hdirectory, hfile⟩ := List.append_inj' hplace rfl
  obtain rfl : directory = directory' := hdirectory
  obtain rfl : stem = stem' := by
    have hname := List.singleton_inj.mp hfile
    rw [← String.toList_inj, String.toList_append, String.toList_append] at hname
    exact String.toList_inj.mp (List.append_cancel_right hname)
  obtain rfl : content = content' := by
    have hnode : some (Node.file content) = some (.file content') := h.node.symm.trans h'.node
    simpa using hnode
  rfl

end DocumentFile

namespace Project

variable {p : Project} {fs : FileSystem} {root : Place}

/-! ### Names of documents -/

/-- **Which names are those of documents.** -/
theorem stem?_eq_some_iff {fileName stem : String} :
    stem? fileName = some stem ↔ stem ≠ "" ∧ fileName = stem ++ Source.Document.extension := by
  constructor
  · intro h
    rw [stem?] at h
    split at h
    · rename_i hcond
      obtain ⟨hsuffix, hlength⟩ := hcond
      obtain ⟨front, hfront⟩ := List.isSuffixOf_iff_suffix.mp hsuffix
      have hstem := Option.some.inj h
      rw [← hfront, List.length_append, Nat.add_sub_cancel, List.take_left] at hstem
      subst hstem
      constructor
      · rw [Ne, String.ofList_eq_empty_iff]
        rintro rfl
        rw [← hfront, List.nil_append] at hlength
        exact Nat.lt_irrefl _ hlength
      · rw [← String.toList_inj, String.toList_append, String.toList_ofList, hfront]
    · cases h
  · rintro ⟨hstem, rfl⟩
    exact stem?_extension hstem

/-! ### Documents below a place -/

/-- The document at a place. -/
def documentAt? (fs : FileSystem) (root place : Place) : Option DocumentFile :=
  match place.getLast?.bind stem?, fs.node? (root ++ place) with
  | some stem, some (.file content) => some ⟨place.dropLast, stem, content⟩
  | _, _ => none

/-- **The documents below a place**, in order. -/
def documents (fs : FileSystem) (root : Place) : List DocumentFile :=
  (fs.filesBelow root).filterMap (documentAt? fs root)

/-- Which document is at a place. -/
theorem documentAt?_eq_some_iff {place : Place} {d : DocumentFile} :
    documentAt? fs root place = some d ↔ place = d.place ∧ d.IsBelow root fs := by
  constructor
  · intro h
    rw [documentAt?] at h
    split at h
    · rename_i stem content hstem hnode
      obtain rfl := Option.some.inj h
      obtain ⟨fileName, hlast, hname⟩ := Option.bind_eq_some_iff.mp hstem
      obtain ⟨hne, rfl⟩ := stem?_eq_some_iff.mp hname
      obtain ⟨front, rfl⟩ := List.getLast?_eq_some_iff.mp hlast
      have hplace : DocumentFile.place ⟨(front ++ [stem ++ Source.Document.extension]).dropLast,
          stem, content⟩ = front ++ [stem ++ Source.Document.extension] := by
        rw [DocumentFile.place, DocumentFile.fileName_eq, List.dropLast_concat]
      exact ⟨hplace.symm, hne, by rw [hplace]; exact hnode⟩
    · cases h
  · rintro ⟨rfl, hstem, hnode⟩
    rw [documentAt?, hnode, DocumentFile.place, List.getLast?_concat, List.dropLast_concat,
      Option.bind_some, DocumentFile.fileName_eq, stem?_extension hstem]

/-- **The documents below a place** are all that are there. -/
theorem mem_documents_iff (htree : fs.IsTree) {d : DocumentFile} :
    d ∈ documents fs root ↔ d.IsBelow root fs := by
  rw [documents, List.mem_filterMap]
  constructor
  · rintro ⟨place, -, hplace⟩
    exact (documentAt?_eq_some_iff.mp hplace).2
  · intro h
    refine ⟨d.place, htree.mem_filesBelow_iff.mpr ⟨?_, d.content, h.node⟩,
      documentAt?_eq_some_iff.mpr ⟨rfl, h⟩⟩
    simp [DocumentFile.place]

/-- **The documents below a place are in order**, and none is there twice. -/
theorem pairwise_documents (htree : fs.IsTree) (root : Place) :
    (documents fs root).Pairwise fun d d' => d.place < d'.place := by
  refine List.pairwise_filterMap.mpr ((htree.pairwise_filesBelow root).imp ?_)
  intro place place' hlt d hd d' hd'
  obtain ⟨rfl, -⟩ := documentAt?_eq_some_iff.mp hd
  obtain ⟨rfl, -⟩ := documentAt?_eq_some_iff.mp hd'
  exact hlt

/-! ### Entries -/

/-- **The entry of a document.** -/
def entryOf (p : Project) (d : DocumentFile) : Entry where
  document := p.inputRoot.joinNames d.place
  source := .ofNames (d.directory ++ [d.stem ++ ".ts"])
  output := (p.outputRoot.join (.ofNames d.directory)).join ⟨d.stem ++ ".pas"⟩
  name := d.stem
  isMain := p.isMain (.ofNames (d.directory ++ [d.stem ++ ".ts"]))

/-- The entry at a place is that of the document there. -/
theorem entryOfPlace?_eq (htree : fs.IsTree) {place : Place}
    (hfile : ∃ content, fs.node? (root ++ place) = some (.file content)) :
    p.entryOfPlace? place = (documentAt? fs root place).map p.entryOf := by
  obtain ⟨content, hfile⟩ := hfile
  rcases List.eq_nil_or_concat place with rfl | ⟨names, fileName, rfl⟩
  · rfl
  rw [List.concat_eq_append] at hfile ⊢
  have hnames : ∀ n ∈ names ++ [fileName], IsName n := fun n hn =>
    ((htree.of_append (by rw [hfile]; rfl)).2 n hn).isName
  have hlast := Path.fileName?_of_components (Path.components_ofNames hnames)
  rw [entryOfPlace?, entryAt?, hlast, Path.parent?_ofNames hnames]
  rcases hstem : stem? fileName with _ | stem
  · simp [documentAt?, hstem]
  · obtain ⟨hne, rfl⟩ := stem?_eq_some_iff.mp hstem
    have hdocument : DocumentFile.IsBelow ⟨names, stem, content⟩ root fs := ⟨hne, hfile⟩
    have hjoin := Path.join_ofNames (hdocument.isName_directory htree)
      (hdocument.isName_stem htree ".ts" (by decide) (by decide))
    have hat : documentAt? fs root (names ++ [stem ++ Source.Document.extension])
        = some ⟨names, stem, content⟩ := documentAt?_eq_some_iff.mpr ⟨rfl, hdocument⟩
    rw [hat]
    simp [hstem, hjoin, entryOf, DocumentFile.place, DocumentFile.fileName_eq]

/-- The entries of a project are found among the files below its input root. -/
theorem discover?_of_isListable (htree : fs.IsTree) (hroot : IsListable fs p.inputRoot root) :
    p.discover? fs = some ((fs.filesBelow root).filterMap p.entryOfPlace?) := by
  rw [discover?, htree.listFiles?_eq_some_iff.mpr ⟨root, hroot, rfl⟩, Option.map_some]

/-- **The entries of a project** are those of the documents below its input root. -/
theorem discover?_eq_some_iff (htree : fs.IsTree) {entries : List Entry} :
    p.discover? fs = some entries ↔
      ∃ root, IsListable fs p.inputRoot root ∧ entries = (documents fs root).map p.entryOf := by
  have hentries (root : Place) :
      (fs.filesBelow root).filterMap p.entryOfPlace? = (documents fs root).map p.entryOf := by
    rw [documents, List.map_filterMap]
    refine List.filterMap_congr fun place hplace => ?_
    exact entryOfPlace?_eq htree (htree.mem_filesBelow_iff.mp hplace).2
  constructor
  · intro h
    obtain ⟨places, hplaces, rfl⟩ := Option.map_eq_some_iff.mp h
    obtain ⟨root, hroot, rfl⟩ := htree.listFiles?_eq_some_iff.mp hplaces
    exact ⟨root, hroot, hentries root⟩
  · rintro ⟨root, hroot, rfl⟩
    rw [discover?_of_isListable htree hroot, hentries root]

/-- A project has no entries to show exactly if its input root cannot be listed. -/
theorem discover?_eq_none_iff (htree : fs.IsTree) :
    p.discover? fs = none ↔ ∀ root, ¬IsListable fs p.inputRoot root := by
  rw [Option.eq_none_iff_forall_not_mem]
  constructor
  · intro hnone root hroot
    exact hnone _ ((discover?_eq_some_iff htree).mpr ⟨root, hroot, rfl⟩)
  · intro hnone entries hentries
    obtain ⟨root, hroot, -⟩ := (discover?_eq_some_iff htree).mp hentries
    exact hnone root hroot

/-- **Taking away the input root** of the path of a file that is listed leaves the place of the
file, and never fails. -/
theorem stripBase?_of_listed (htree : fs.IsTree) {places : List Place}
    (h : fs.listFiles? p.inputRoot = some places) {place : Place} (hplace : place ∈ places) :
    (p.inputRoot.joinNames place).stripBase? p.inputRoot = some (.ofNames place) := by
  obtain ⟨root, -, rfl⟩ := htree.listFiles?_eq_some_iff.mp h
  obtain ⟨hne, content, hfile⟩ := htree.mem_filesBelow_iff.mp hplace
  have hnames := (htree.of_append (by rw [hfile]; rfl)).2
  exact Path.stripBase?_joinNames p.inputRoot hne fun n hn => (hnames n hn).isName

/-- **The entries of a project by their paths**: each is the entry of the path of a listed file, at
what is left of that path without the input root. -/
theorem discover?_eq_stripped (htree : fs.IsTree) :
    p.discover? fs = (fs.listFiles? p.inputRoot).map fun places => places.filterMap fun place =>
      ((p.inputRoot.joinNames place).stripBase? p.inputRoot).bind
        (p.entryAt? (p.inputRoot.joinNames place)) := by
  rw [discover?]
  rcases hplaces : fs.listFiles? p.inputRoot with _ | places
  · rfl
  refine congrArg some (List.filterMap_congr fun place hplace => ?_)
  rw [stripBase?_of_listed htree hplaces hplace, Option.bind_some, entryOfPlace?]

/-- The generated file of a document lies below the output root as the document does below the
input root. -/
theorem components_output_entryOf (htree : fs.IsTree) {d : DocumentFile} (h : d.IsBelow root fs) :
    (p.entryOf d).output.components
      = p.outputRoot.components ++ (d.directory ++ [d.stem ++ ".pas"]).map .name := by
  have hname := h.isName_stem htree ".pas" (by decide) (by decide)
  have hdirectory := Path.components_ofNames (h.isName_directory htree)
  rw [entryOf, Path.components_join_name _ hname,
    Path.components_join _ (Path.opening_fst_eq_none hdirectory), hdirectory, List.map_append,
    List.append_assoc]
  rfl

/-! ### Results -/

/-- What the content of a document becomes. -/
def resultOfContent (p : Project) (e : Entry) (content : Option ByteArray) :
    Except DraftError GeneratedFile :=
  match content.bind String.fromUTF8? with
  | none => .error (.document (.unreadable e.document.text))
  | some text =>
    match Source.Document.parse text with
    | .ok d => generate p.settings e.request d
    | .error error => .error (.document error)

/-- A text that can be read as a document becomes the file that is generated from it. -/
theorem resultOfContent_of_parse {e : Entry} {text : String} {document : Source.Document}
    (h : Source.Document.parse text = .ok document) :
    p.resultOfContent e (some text.toUTF8) = generate p.settings e.request document := by
  have hvalid : text.toUTF8.IsValidUTF8 := text.isValidUTF8
  have htext : (some text.toUTF8).bind String.fromUTF8? = some text := by
    rw [Option.bind_some, String.fromUTF8?, dif_pos hvalid]
    rfl
  rw [resultOfContent, htext]
  simp only [h]

/-- **What becomes of a document.** One whose path is too long cannot be read. -/
def resultOf (p : Project) (d : DocumentFile) : Except DraftError GeneratedFile :=
  p.resultOfContent (p.entryOf d)
    (if FileSystem.isUsable (p.entryOf d).document then some d.content else none)

/-- The file of an entry is generated from what can be read. -/
theorem generateEntry_eq (p : Project) (fs : FileSystem) (e : Entry) :
    p.generateEntry fs e = p.resultOfContent e (fs.read? e.document) := by
  rw [generateEntry, readDocument, FileSystem.readText?, resultOfContent]
  rcases (fs.read? e.document).bind String.fromUTF8? with _ | text
  · rfl
  · rcases hparse : Source.Document.parse text with error | document
    · simp [hparse]
    · simp [hparse]

/-- **The path of a document** leads to it, if it is not too long. -/
theorem locate?_entryOf (htree : fs.IsTree) (hroot : IsListable fs p.inputRoot root)
    {d : DocumentFile} (h : d.IsBelow root fs)
    (husable : FileSystem.isUsable (p.entryOf d).document = true) :
    fs.locate? (p.entryOf d).document = some (root ++ d.place) := by
  have hsome : (fs.node? (root ++ d.place)).isSome = true := by rw [h.node]; rfl
  have hrootdir := (htree.of_append hsome).1 (by simp [DocumentFile.place])
  have hfile := h.isFileName htree d.fileName (by simp [DocumentFile.place])
  have hdirectory : fs.isDirectoryAt (root ++ d.directory) = true := by
    rw [DocumentFile.place, ← List.append_assoc] at hsome
    exact (htree.of_concat hsome).1
  obtain ⟨-, hsteps⟩ := FileSystem.locate?_directory_iff.mp ⟨root, hroot.locate, hrootdir⟩
  have hcomponents := Path.components_joinNames p.inputRoot (h.isName_directory htree)
  have htarget := (FileSystem.eq_target_of_locate? hroot.locate).2
  have hpath : (p.entryOf d).document = (p.inputRoot.joinNames d.directory).join ⟨d.fileName⟩ :=
    Path.joinNames_concat _ _ _
  rw [hpath] at husable ⊢
  refine (FileSystem.locate?_join_name_iff hfile.isName).mpr
    ⟨husable, ?_, hfile.isNameable, ?_⟩
  · rw [hcomponents]
    refine htree.makeSteps_append_names hsteps ?_
    rw [← FileSystem.target, ← htarget]
    exact hdirectory
  · rw [fs.target_of_components (h.isName_directory htree) hcomponents, ← htarget,
      List.append_assoc]
    rfl

/-- **A document can be read** where it lies, if its path is not too long. -/
theorem read?_entryOf (htree : fs.IsTree) (hroot : IsListable fs p.inputRoot root)
    {d : DocumentFile} (h : d.IsBelow root fs) :
    fs.read? (p.entryOf d).document
      = if FileSystem.isUsable (p.entryOf d).document then some d.content else none := by
  rw [FileSystem.read?, FileSystem.lookup?]
  by_cases husable : FileSystem.isUsable (p.entryOf d).document = true
  · rw [locate?_entryOf htree hroot h husable, Option.bind_some, h.node, if_pos husable]
  · rw [FileSystem.locate?, if_neg husable, if_neg husable]
    rfl

/-- **What becomes of a document** depends on where it lies and on what it holds. -/
theorem generateEntry_entryOf (htree : fs.IsTree) (hroot : IsListable fs p.inputRoot root)
    {d : DocumentFile} (h : d.IsBelow root fs) :
    p.generateEntry fs (p.entryOf d) = p.resultOf d := by
  rw [generateEntry_eq, read?_entryOf htree hroot h, resultOf]

/-- What becomes of all documents below a place. -/
def outcomesOf (p : Project) (documents : List DocumentFile) : Outcomes where
  files := documents.map fun d => ⟨p.entryOf d, p.resultOf d⟩
  missingMain := p.missingMain? (documents.map p.entryOf)

/-- **What becomes of a project** is what becomes of the documents below its input root, of each on
its own. -/
theorem generateAll?_eq_some_iff (htree : fs.IsTree) {outcomes : Outcomes} :
    p.generateAll? fs = some outcomes ↔
      ∃ root, IsListable fs p.inputRoot root ∧ outcomes = p.outcomesOf (documents fs root) := by
  have houtcomes {root : Place} (hroot : IsListable fs p.inputRoot root) :
      Outcomes.mk (((documents fs root).map p.entryOf).map fun e => ⟨e, p.generateEntry fs e⟩)
        (p.missingMain? ((documents fs root).map p.entryOf)) = p.outcomesOf (documents fs root) := by
    rw [outcomesOf, List.map_map]
    congr 1
    refine List.map_congr_left fun d hd => ?_
    have hbelow := (mem_documents_iff htree).mp hd
    rw [Function.comp_apply, generateEntry_entryOf htree hroot hbelow]
  rw [generateAll?, Option.map_eq_some_iff]
  constructor
  · rintro ⟨entries, hentries, rfl⟩
    obtain ⟨root, hroot, rfl⟩ := (discover?_eq_some_iff htree).mp hentries
    exact ⟨root, hroot, houtcomes hroot⟩
  · rintro ⟨root, hroot, rfl⟩
    exact ⟨_, (discover?_eq_some_iff htree).mpr ⟨root, hroot, rfl⟩, houtcomes hroot⟩

end Project

end DelphiUnits

import DelphiUnits.Proofs.Pascal.Outline
import DelphiUnits.Proofs.Pascal.Registered

/-!
# The headers of a `type` section

Declarations are told apart by their keys, which are names and parents. A reader of the generated
file sees the **header** of each declaration: `Name = class (Parent)`. Names and parents are
arbitrary texts, and a name may well have ` = ` in it, so that two declarations under different keys
could have the same header.

They never do. Behind the ` = ` of a header stands a Pascal word in small letters. In a name in
normal form no small letter follows a blank, so a name cannot reach into what stands behind it. And
none of the words is the beginning of another, so the word tells where the parent starts.

## Main results

* `headerTail_eq_iff`: what follows the name in a header can be told from its text;
* `declarationHeader_eq_iff`: which declarations have the same header;
* `filter_depth_lines`: the lines of a `type` section that stand furthest out are its headers;
* `CompilationUnit.declarationHeaders_of_run`: no header is written twice, whatever is declared.
-/

namespace DelphiUnits.Pascal

open Layout (LaysOut Line)
open Text (normalizeIdentifier)

/-! ### What follows a name -/

/-- The end of a header: what is declared, and the class that a class extends. -/
def headerTail (s : Shape) : String :=
  s.keyword ++
    match s.parent? with
    | some parent => " (" ++ parent ++ ")"
    | none => ""

/-- A header is a name, an equals sign between blanks, and its end. -/
theorem declarationHeader_eq (d : Declaration) :
    declarationHeader d = d.name ++ (" = " ++ headerTail d.shape) := by
  rw [declarationHeader, headerTail]
  cases d.shape.parent? <;> simp only [String.append_assoc]

/-- **Only classes have parents**, and the words for all others are whole ends of headers. -/
theorem headerTail_cases (s : Shape) :
    (∃ parent members, s = .classType parent members) ∨
      s.parent? = none ∧ headerTail s = s.keyword ∧
        s.keyword ∈ ["record", "var", "const", "function"] := by
  cases s with
  | classType parent members => exact .inl ⟨parent, members, rfl⟩
  | record | var | const | function =>
      exact .inr ⟨rfl, String.append_empty, by simp [Shape.keyword]⟩

/-- No end of a header starts like that of a class unless it is one. -/
theorem class_append_ne (rest : String) {word : String}
    (hword : word ∈ ["record", "var", "const", "function"]) : "class" ++ rest ≠ word := by
  intro h
  have hstart : ("class" ++ rest).toList.take 2 = ['c', 'l'] := by
    rw [String.toList_append]
    rfl
  rw [h] at hstart
  simp only [List.mem_cons, List.not_mem_nil, or_false] at hword
  rcases hword with rfl | rfl | rfl | rfl <;> simp at hstart

/-- The parent of a class can be told from the end of its header. -/
theorem headerTail_classType_inj {parent parent' : Option String}
    {members members' : List (String × Member)}
    (h : headerTail (.classType parent members) = headerTail (.classType parent' members')) :
    parent = parent' := by
  have hsuffix := (String.append_right_inj "class").mp h
  have hlength (p : String) : " (" ++ p ++ ")" ≠ "" := by
    intro hempty
    have hzero := congrArg String.length hempty
    simp at hzero
  cases parent with
  | none =>
      cases parent' with
      | none => rfl
      | some p' => exact absurd hsuffix.symm (hlength p')
  | some p =>
      cases parent' with
      | none => exact absurd hsuffix (hlength p)
      | some p' =>
          have hclosed := (String.append_left_inj ")").mp hsuffix
          exact congrArg some ((String.append_right_inj " (").mp hclosed)

/-- **The end of a header** says what is declared and which class is extended. -/
theorem headerTail_eq_iff {s t : Shape} :
    headerTail s = headerTail t ↔ s.keyword = t.keyword ∧ s.parent? = t.parent? := by
  constructor
  · intro h
    rcases headerTail_cases s with ⟨parent, members, rfl⟩ | ⟨hs, hstail, hsword⟩ <;>
      rcases headerTail_cases t with ⟨parent', members', rfl⟩ | ⟨ht, httail, htword⟩
    · exact ⟨rfl, headerTail_classType_inj h⟩
    · exact absurd (h.trans httail) (class_append_ne _ htword)
    · exact absurd (h.symm.trans hstail) (class_append_ne _ hsword)
    · exact ⟨hstail.symm.trans (h.trans httail), hs.trans ht.symm⟩
  · rintro ⟨hword, hparent⟩
    rw [headerTail, headerTail, hword, hparent]

/-! ### Headers -/

/-- Every end of a header starts with a small letter. -/
theorem exists_toList_headerTail (s : Shape) :
    ∃ x rest, (headerTail s).toList = x :: rest ∧ x.toUpper ≠ x := by
  have hword : ∃ x rest, s.keyword.toList = x :: rest ∧ x.toUpper ≠ x := by
    cases s with
    | record => exact ⟨'r', "ecord".toList, by simp [Shape.keyword], by decide⟩
    | var => exact ⟨'v', "ar".toList, by simp [Shape.keyword], by decide⟩
    | const => exact ⟨'c', "onst".toList, by simp [Shape.keyword], by decide⟩
    | function => exact ⟨'f', "unction".toList, by simp [Shape.keyword], by decide⟩
    | classType => exact ⟨'c', "lass".toList, by simp [Shape.keyword], by decide⟩
  obtain ⟨x, rest, hx, hsmall⟩ := hword
  rw [headerTail, String.toList_append, hx]
  exact ⟨x, _, List.cons_append, hsmall⟩

/-- **Which declarations have the same header**: those with the same key that declare the same kind
of thing, if their names are in normal form. -/
theorem declarationHeader_eq_iff {d e : Declaration} (hd : normalizeIdentifier d.name = d.name)
    (he : normalizeIdentifier e.name = e.name) :
    declarationHeader d = declarationHeader e ↔
      d.key = e.key ∧ d.shape.keyword = e.shape.keyword := by
  rw [declarationHeader_eq, declarationHeader_eq, Declaration.key, Declaration.key,
    Declaration.Key.mk.injEq]
  constructor
  · intro h
    obtain ⟨x, s, hx, hxsmall⟩ := exists_toList_headerTail d.shape
    obtain ⟨y, t, hy, hysmall⟩ := exists_toList_headerTail e.shape
    have htexts := congrArg String.toList h
    simp only [String.toList_append, hx, hy] at htexts
    obtain ⟨hname, htails⟩ := Text.append_separator_inj hd he (by decide) (by decide) hxsmall
      hysmall htexts
    have htail : headerTail d.shape = headerTail e.shape := by
      rw [← String.toList_inj, hx, hy, htails]
    obtain ⟨hword, hparent⟩ := headerTail_eq_iff.mp htail
    exact ⟨⟨hname, hparent⟩, hword⟩
  · rintro ⟨⟨hname, hparent⟩, hword⟩
    rw [hname, headerTail_eq_iff.mpr ⟨hword, hparent⟩]

/-- **No two declarations of a well registered unit have the same header.** -/
theorem WellRegistered.nodup_headers {u : CompilationUnit} (h : WellRegistered u) :
    (u.types.map declarationHeader).Nodup := by
  have hkeys : u.types.Pairwise fun d e => d.key ≠ e.key := List.pairwise_map.mp h.types
  refine List.pairwise_map.mpr (hkeys.imp_of_mem fun {d e} hd he hkey hheader => hkey ?_)
  exact ((declarationHeader_eq_iff (h.typeNames d hd) (h.typeNames e he)).mp hheader).1

/-! ### Lines -/

/-- What stands below the header of a declaration stands further in. -/
theorem depth_of_mem_groupOutline {members : List Declaration} {v : Source.Visibility}
    {l : OutlineLine} (h : l ∈ groupOutline members v) : l.role.depth ≠ 2 := by
  rw [groupOutline] at h
  split at h
  · cases h
  · rcases List.mem_cons.mp h with rfl | hmember
    · simp [LineRole.depth]
    · obtain ⟨m, -, rfl⟩ := List.mem_map.mp hmember
      simp [LineRole.depth]

/-- **The headers are the lines that stand furthest out** in a `type` section. -/
theorem filter_depth_lines (declarations : List Declaration) :
    (((OutlineLine.lines (declarations.flatMap declarationOutline)).filter (·.depth = 2)).map
      Line.text) = declarations.map declarationHeader := by
  have hone (d : Declaration) :
      ((OutlineLine.lines (declarationOutline d)).filter (·.depth = 2)).map Line.text
        = [declarationHeader d] := by
    have hbelow : (OutlineLine.lines (visibilityGroups.flatMap
        (groupOutline (d.shape.members?.getD [])))).filter (·.depth = 2) = [] := by
      refine List.filter_eq_nil_iff.mpr fun line hline hdepth => ?_
      obtain ⟨l, hl, rfl⟩ := List.mem_map.mp hline
      obtain ⟨v, -, hgroup⟩ := List.mem_flatMap.mp hl
      exact depth_of_mem_groupOutline hgroup (of_decide_eq_true hdepth)
    rw [declarationOutline, OutlineLine.lines_cons, List.filter_cons_of_pos rfl, hbelow]
    rfl
  rw [OutlineLine.lines, List.map_flatMap, List.filter_flatMap, List.map_flatMap,
    List.map_eq_flatMap]
  exact List.flatMap_congr fun d _ => hone d

namespace CompilationUnit

/-- **No header is written twice.** In every run of registrations from an empty unit, the
declarations are those that were made, without those that repeat a key. Where the script of the
declarations runs in a file, it writes one header for each of them, in their order and furthest out
of all its lines, and the headers are distinct. Telling declarations apart by their keys is enough
for that, since two declarations have the same header only if they have the same key. -/
theorem declarationHeaders_of_run (kind : UnitKind) (name : String) (calls : List Registration) :
    let u := (empty kind name).registerAll calls
    u.types = (calls.filterMap Registration.declared?).eraseDupsBy (fun d e => d.key = e.key) ∧
    (∃ lines, LaysOut 2 (typesScript u) lines ∧
      (lines.filter (·.depth = 2)).map Line.text = u.types.map declarationHeader) ∧
    (u.types.map declarationHeader).Nodup ∧
    ∀ d e : Declaration, declarationHeader d.normalize = declarationHeader e.normalize ↔
      d.normalize.key = e.normalize.key ∧ d.shape.keyword = e.shape.keyword := by
  intro u
  refine ⟨?_, ⟨OutlineLine.lines (u.types.flatMap declarationOutline), ?_,
    filter_depth_lines u.types⟩, ((WellRegistered.empty kind name).registerAll calls).nodup_headers,
    fun d e => ?_⟩
  · have htypes : u.types = addAll Declaration.key [] (calls.filterMap Registration.declared?) :=
      types_registerAll (empty kind name) calls
    rw [htypes, addAll_nil_eq_eraseDupsBy]
  · rw [OutlineLine.lines, List.map_flatMap]
    exact .flatMap u.types laysOut_declarationScript
  · exact declarationHeader_eq_iff (Text.normalizeIdentifier_normalizeIdentifier d.name)
      (Text.normalizeIdentifier_normalizeIdentifier e.name)

end CompilationUnit

end DelphiUnits.Pascal

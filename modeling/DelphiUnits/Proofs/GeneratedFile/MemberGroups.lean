import DelphiUnits.Proofs.GeneratedFile.Registries
import DelphiUnits.Proofs.Pascal.Outline

/-!
# The members of a class, group by group

Below the header of a class stand the names of its properties, in groups: public ones first, then
private and protected ones. A property without a visibility is in no group.

A class may declare a property more than once. Its members are then a map in which the name keeps
the place of its **first** property and takes everything else from its **last** one. So a name is in
the group of its last property, and stands there where its first property would.

## Main results

* `lastProperty?_eq_some_iff`: which property counts for a name;
* `map_name_membersWith`: the members with a visibility are the group of that visibility;
* `declarationOutline_classDeclaration`: what stands below the header of a class;
* `generate_groups_members`: where this is found in a generated file.
-/

namespace DelphiUnits

open Source (Document Property Visibility)

namespace Pascal

/-! ### Groups -/

/-- **The property that counts for a name**: the last one with that name. -/
def lastProperty? (properties : List Property) (name : String) : Option Property :=
  (properties.filter (·.name = name)).getLast?

/-- **The group of a visibility**: the names whose last property has it, in the order in which the
names come first. -/
def groupNames (properties : List Property) (v : Visibility) : List String :=
  (properties.map Property.name).eraseDups.filter fun name =>
    (lastProperty? properties name).bind Property.visibility = some v

/-- The lines of a group. A group without names has no label either. -/
def groupLines (label : String) (names : List String) : List OutlineLine :=
  if names.isEmpty then [] else ⟨.label, label⟩ :: names.map (⟨.member, ·⟩)

/-- **The lines below the header of a class.** -/
def memberOutline (properties : List Property) : List OutlineLine :=
  groupLines "public" (groupNames properties .everywhere) ++
    groupLines "private" (groupNames properties .inClass) ++
    groupLines "protected" (groupNames properties .inFamily)

/-- A property counts for its name exactly if no property behind it has that name. -/
theorem lastProperty?_eq_some_iff {properties : List Property} {name : String} {p : Property} :
    lastProperty? properties name = some p ↔
      ∃ before after, properties = before ++ p :: after ∧ p.name = name ∧
        name ∉ after.map Property.name := by
  rw [lastProperty?, List.getLast?_eq_some_iff]
  constructor
  · rintro ⟨others, hothers⟩
    obtain ⟨front, back, rfl, -, hback⟩ := List.filter_eq_append_iff.mp hothers
    obtain ⟨between, after, rfl, -, hp, hafter⟩ := List.filter_eq_cons_iff.mp hback
    refine ⟨front ++ between, after, by rw [List.append_assoc], of_decide_eq_true hp, ?_⟩
    rintro hname
    obtain ⟨q, hq, hsame⟩ := List.mem_map.mp hname
    exact List.filter_eq_nil_iff.mp hafter q hq (decide_eq_true hsame)
  · rintro ⟨before, after, rfl, hp, hafter⟩
    have hnone : after.filter (·.name = name) = [] := by
      refine List.filter_eq_nil_iff.mpr fun q hq hsame => hafter ?_
      exact List.mem_map.mpr ⟨q, hq, of_decide_eq_true hsame⟩
    refine ⟨before.filter (·.name = name), ?_⟩
    rw [List.filter_append, List.filter_cons_of_pos (by simpa using hp), hnone]

/-- **Which names are in a group**: those whose last property has the visibility. -/
theorem mem_groupNames_iff {properties : List Property} {v : Visibility} {name : String} :
    name ∈ groupNames properties v ↔
      ∃ before p after, properties = before ++ p :: after ∧ p.name = name ∧
        name ∉ after.map Property.name ∧ p.visibility = some v := by
  rw [groupNames, List.mem_filter, decide_eq_true_eq, Option.bind_eq_some_iff]
  simp only [lastProperty?_eq_some_iff]
  constructor
  · rintro ⟨-, p, ⟨before, after, hsplit, hname, hlast⟩, hv⟩
    exact ⟨before, p, after, hsplit, hname, hlast, hv⟩
  · rintro ⟨before, p, after, rfl, rfl, hlast, hv⟩
    refine ⟨?_, p, ⟨before, after, rfl, rfl, hlast⟩, hv⟩
    rw [List.mem_eraseDups, List.map_append]
    exact List.mem_append_right _ List.mem_cons_self

/-- A group has a line for each of its names, and no others. -/
theorem mem_groupLines_iff {label name : String} {names : List String} :
    ⟨.member, name⟩ ∈ groupLines label names ↔ name ∈ names := by
  rw [groupLines]
  split
  · next hnone => simp [List.isEmpty_iff.mp hnone]
  · simp

/-- **A name is below the header** exactly if its last property has a visibility. -/
theorem mem_memberOutline_iff {properties : List Property} {name : String} :
    ⟨.member, name⟩ ∈ memberOutline properties ↔ ∃ v, name ∈ groupNames properties v := by
  simp only [memberOutline, List.mem_append, mem_groupLines_iff]
  constructor
  · rintro ((hpublic | hprivate) | hprotected)
    · exact ⟨_, hpublic⟩
    · exact ⟨_, hprivate⟩
    · exact ⟨_, hprotected⟩
  · rintro ⟨v, hv⟩
    cases v with
    | everywhere => exact .inl (.inl hv)
    | inClass => exact .inl (.inr hv)
    | inFamily => exact .inr hv

/-! ### Members -/

/-- The names of the members are in the order in which they come first. -/
theorem keys_membersOf (properties : List Property) :
    OrderedMap.keys (Declaration.membersOf properties)
      = (properties.map Property.name).eraseDups := by
  rw [Declaration.membersOf, keys_insertMany, ← addAll_id, List.map_map]
  rfl

/-- **A member is what the last property with its name says.** -/
theorem entry_of_mem_membersOf {properties : List Property} {name : String} {m : Member}
    (h : (name, m) ∈ Declaration.membersOf properties) :
    m.entry.name = name ∧
      m.entry.visibility = (lastProperty? properties name).bind Property.visibility := by
  obtain ⟨before, p, after, hsplit, rfl, hlast, rfl⟩ := OrderedMap.mem_insertMany_map_iff.mp h
  have hcounts := lastProperty?_eq_some_iff.mpr ⟨before, after, hsplit, rfl, hlast⟩
  rw [hcounts]
  exact ⟨rfl, rfl⟩

/-- **The members with a visibility** are the group of that visibility. -/
theorem map_name_membersWith (properties : List Property) (v : Visibility) :
    (membersWith v ((Declaration.membersOf properties).map fun (_, m) => m.entry)).map
      Declaration.name = groupNames properties v := by
  have hentries : ∀ pair ∈ Declaration.membersOf properties,
      (pair.2.entry.visibility == some v)
        = decide ((lastProperty? properties pair.1).bind Property.visibility = some v) := by
    rintro ⟨name, m⟩ hm
    rw [(entry_of_mem_membersOf hm).2]
    exact Bool.beq_eq_decide_eq _ _
  have hnames : ∀ pair ∈ (Declaration.membersOf properties).filter (fun pair =>
      (lastProperty? properties pair.1).bind Property.visibility = some v),
      pair.2.entry.name = pair.1 := by
    rintro ⟨name, m⟩ hm
    exact (entry_of_mem_membersOf (List.mem_of_mem_filter hm)).1
  calc (membersWith v ((Declaration.membersOf properties).map fun (_, m) => m.entry)).map
        Declaration.name
      = ((Declaration.membersOf properties).filter (·.2.entry.visibility == some v)).map
          (·.2.entry.name) := by
        rw [membersWith, List.filter_map, List.map_map]
        rfl
    _ = ((Declaration.membersOf properties).filter fun pair =>
          (lastProperty? properties pair.1).bind Property.visibility = some v).map Prod.fst := by
        rw [List.filter_congr hentries]
        exact List.map_congr_left hnames
    _ = (OrderedMap.keys (Declaration.membersOf properties)).filter fun name =>
          (lastProperty? properties name).bind Property.visibility = some v := by
        rw [OrderedMap.keys, List.filter_map]
        rfl
    _ = groupNames properties v := by rw [keys_membersOf, groupNames]

/-- A group of members has the lines of its names. -/
theorem groupOutline_membersOf (properties : List Property) (v : Visibility) :
    groupOutline ((Declaration.membersOf properties).map fun (_, m) => m.entry) v
      = groupLines v.keyword (groupNames properties v) := by
  rw [groupOutline, groupLines, ← map_name_membersWith, List.isEmpty_map, List.map_map]
  rfl

/-! ### Classes -/

/-- **What stands below the header of a class** are the groups of its properties. -/
theorem declarationOutline_classDeclaration (c : Source.Class) :
    declarationOutline (classDeclaration c)
      = ⟨.declaration, declarationHeader (classDeclaration c)⟩ :: memberOutline c.properties := by
  have hmembers : (classDeclaration c).shape.members?.getD []
      = (Declaration.membersOf c.properties).map fun (_, m) => m.entry := rfl
  rw [declarationOutline, hmembers, visibilityGroups, memberOutline]
  simp only [List.flatMap_cons, List.flatMap_nil, List.append_nil, groupOutline_membersOf,
    List.append_assoc]
  rfl

/-- **Where a declaration stands in a file**: its lines are together, and what follows them is
another declaration or the end of the section. -/
theorem exists_outline_eq {u : CompilationUnit} {d : Declaration} (hd : d ∈ u.types) :
    ∃ (front : List OutlineLine) (next : OutlineLine) (back : List OutlineLine),
      outline u = front ++ declarationOutline d ++ next :: back ∧
      (next.role = .declaration ∨ next.role = .separator) := by
  obtain ⟨before, after, htypes⟩ := List.append_of_mem hd
  have hsection : typesOutline u = ⟨.typeWord, "type"⟩ ::
      (before ++ d :: after).flatMap declarationOutline ++ [separator] := by
    rw [typesOutline, htypes, if_neg (by simp)]
  obtain ⟨front, back, houtline⟩ : ∃ front back, outline u = front ++ typesOutline u ++ back := by
    refine ⟨[⟨.header, u.kind.keyword ++ " " ++ u.name ++ ";"⟩, separator,
        ⟨.interfaceWord, "interface"⟩] ++ usesOutline u,
      (if u.usedUnits.isEmpty && u.types.isEmpty then [separator] else []) ++
        (implementationOutline u ++ closingOutline u), ?_⟩
    rw [outline]
    simp only [List.append_assoc]
  rw [hsection] at houtline
  cases after with
  | nil =>
      refine ⟨front ++ ⟨.typeWord, "type"⟩ :: before.flatMap declarationOutline, separator, back,
        ?_, .inr rfl⟩
      rw [houtline]
      simp [List.append_assoc]
  | cons e after =>
      obtain ⟨members, hmembers⟩ : ∃ members, declarationOutline e
          = ⟨.declaration, declarationHeader e⟩ :: members := ⟨_, rfl⟩
      refine ⟨front ++ ⟨.typeWord, "type"⟩ :: before.flatMap declarationOutline,
        ⟨.declaration, declarationHeader e⟩,
        members ++ (after.flatMap declarationOutline ++ separator :: back), ?_, .inl rfl⟩
      rw [houtline]
      simp [hmembers, List.append_assoc]

end Pascal

open Pascal (IsKept OutlineLine classDeclaration declarationHeader groupNames memberOutline outline)

/-- **The members of every class** in a generated file. Its text is the outline of the unit that was
drafted, in which exactly the classes that are kept are registered. The lines of a registered class
are its header and its groups, up to the next declaration or the end of the section. In a group are
the names whose last property has its visibility, and a name without a visibility is nowhere. -/
theorem generate_groups_members {settings : Settings} {request : Request} {document : Document}
    {g : GeneratedFile} (h : generate settings request document = .ok g) :
    let u := (draftUnit settings request document).1.unit
    g.content = Layout.Line.renderAll settings.indent (OutlineLine.lines (outline u)) ∧
    (∀ d, d ∈ u.types ∧ (∃ parent members, d.shape = .classType parent members) ↔
      ∃ before c after, IsKept document before c after ∧ d = classDeclaration c) ∧
    (∀ c, classDeclaration c ∈ u.types →
      ∃ (front : List OutlineLine) (next : OutlineLine) (back : List OutlineLine),
      outline u = front ++ (⟨.declaration, declarationHeader (classDeclaration c)⟩ ::
        memberOutline c.properties) ++ next :: back ∧
      (next.role = .declaration ∨ next.role = .separator)) ∧
    (∀ properties v name, name ∈ groupNames properties v ↔
      ∃ before p after, properties = before ++ p :: after ∧ p.name = name ∧
        name ∉ after.map Property.name ∧ p.visibility = some v) ∧
    (∀ properties name, ⟨.member, name⟩ ∈ memberOutline properties ↔
      ∃ v, name ∈ groupNames properties v) := by
  intro u
  obtain ⟨hfinished, rfl⟩ := generate_eq_ok_iff.mp h
  refine ⟨(Pascal.laysOut_unitScript u).run_text, fun d => ?_, fun c hc => ?_,
    fun _ _ _ => Pascal.mem_groupNames_iff, fun _ _ => Pascal.mem_memberOutline_iff⟩
  · have hu : u = Pascal.unitOf settings request document := unit_draftUnit hfinished
    rw [hu]
    exact Pascal.mem_types_class_iff settings request document
  · rw [← Pascal.declarationOutline_classDeclaration]
    exact Pascal.exists_outline_eq hc

/-- A class that declares properties more than once: one turns from private to public, one loses its
visibility and one gets it late. -/
def regroupedClass : Source.Class where
  name := "point"
  parent := some "Shape"
  properties :=
    [⟨"x", none, none, some .inClass, false⟩, ⟨"y", none, none, some .everywhere, false⟩,
      ⟨"lost", none, none, some .inFamily, false⟩, ⟨"late", none, none, none, false⟩,
      ⟨"x", some "int", none, some .everywhere, false⟩, ⟨"lost", none, none, none, false⟩,
      ⟨"late", none, none, some .inClass, true⟩]

/-- The first property keeps its place in front of the second one although it becomes public later,
and the label `protected` is not there. -/
theorem generate_regroupedClass :
    ∃ g, generate (.ofRoot ⟨"in"⟩) ⟨"Unit", ⟨"Unit.ts"⟩, false⟩ ⟨[], [], [regroupedClass]⟩ = .ok g ∧
      ∃ u : Pascal.CompilationUnit,
        g.content = Layout.Line.renderAll .tab (OutlineLine.lines (outline u)) ∧
        ∃ (front : List OutlineLine) (next : OutlineLine) (back : List OutlineLine),
          outline u = front ++
            [⟨.declaration, "Point = class (Shape)"⟩, ⟨.label, "public"⟩, ⟨.member, "x"⟩,
              ⟨.member, "y"⟩, ⟨.label, "private"⟩, ⟨.member, "late"⟩] ++ next :: back ∧
          (next.role = .declaration ∨ next.role = .separator) := by
  have hgenerated : generate (.ofRoot ⟨"in"⟩) ⟨"Unit", ⟨"Unit.ts"⟩, false⟩
      ⟨[], [], [regroupedClass]⟩ = .ok (.ofDraft (.ofRoot ⟨"in"⟩) (draftUnit (.ofRoot ⟨"in"⟩)
        ⟨"Unit", ⟨"Unit.ts"⟩, false⟩ ⟨[], [], [regroupedClass]⟩).1) :=
    generate_eq_ok_iff.mpr ⟨rfl, rfl⟩
  have hlines : ⟨.declaration, declarationHeader (classDeclaration regroupedClass)⟩ ::
        memberOutline regroupedClass.properties
      = [⟨.declaration, "Point = class (Shape)"⟩, ⟨.label, "public"⟩, ⟨.member, "x"⟩,
        ⟨.member, "y"⟩, ⟨.label, "private"⟩, ⟨.member, "late"⟩] := by decide
  obtain ⟨hcontent, -, hclasses, -⟩ := generate_groups_members hgenerated
  have hclass := hclasses regroupedClass List.mem_cons_self
  rw [hlines] at hclass
  exact ⟨_, hgenerated, _, hcontent, hclass⟩

end DelphiUnits

import Mathlib.Data.List.Forall2
import Mathlib.Logic.Relation
import DelphiUnits.Proofs.Json.Members
import DelphiUnits.Proofs.Source.Grammar
import DelphiUnits.Source.Document

/-!
# Edits of a document

A document can be edited without a change to what it says. The members of an object with distinct
keys may change **places**, anywhere in the document. Records, statements and expressions may get
**further members**, as long as they do not look at them. Which keys a tree looks at depends on its
role, and for statements and expressions on its tag.

An edit is made in one place at a time. The readers of all trees around that place see it, and there
are three of them: records, statements and expressions look up their fields in different ways. What
an edit looks like to each of them is said once here.

## Main definitions

* `Role`: what a tree is read as;
* `Edit`: one edit of a tree in a role, at a depth.

## Main results

* `Edit.fits_eq`: an edit does not change whether a tree fits;
* `Edit.record`, `Edit.statement`, `Edit.expression`: what an edit does to the fields of a tree.
-/

namespace DelphiUnits.Source

open Relation (ReflGen)

/-! ### Roles -/

/-- What a tree is read as. -/
inductive Role where
  /-- A value that is taken as it is, or not looked at. -/
  | value
  /-- A list of items. -/
  | list (item : Role)
  /-- A record with fields in their order. -/
  | record (fields : List (String × Role))
  /-- A statement, which may stand inside another one. -/
  | statement (inner : Bool)
  /-- An expression. -/
  | expression

/-- The role of an import. -/
def Import.role : Role :=
  .record [("specifier", .value)]

/-- The role of a parameter. -/
def Parameter.role : Role :=
  .record [("name", .value), ("type", .value)]

/-- The role of a function. -/
def Function.role : Role :=
  .record [("name", .value), ("exported", .value), ("defaultExport", .value),
    ("parameters", .list Parameter.role), ("returnType", .value),
    ("body", .list (.statement false))]

/-- The role of a property. -/
def Property.role : Role :=
  .record [("name", .value), ("type", .value), ("initializer", .value), ("visibility", .value),
    ("static", .value)]

/-- The role of a class. -/
def Class.role : Role :=
  .record [("name", .value), ("extends", .value), ("properties", .list Property.role)]

/-- The role of a document. -/
def Document.role : Role :=
  .record [("imports", .list Import.role), ("functions", .list Function.role),
    ("classes", .list Class.role)]

/-- The role of a variable. -/
def Variable.role : Role :=
  .record [("name", .value), ("type", .value), ("initializer", .expression)]

namespace Statement

/-- The fields of a statement of a kind, with their roles. -/
def Kind.fields : Kind → List (String × Role)
  | .declare => [("declarations", .list Variable.role)]
  | .evaluate => [("expression", .expression)]
  | .conditional => [("condition", .expression), ("thenStatement", .list (.statement true)),
      ("elseStatement", .list (.statement true))]
  | .whileLoop => [("condition", .expression), ("body", .list (.statement true))]
  | .forLoop => [("initializer", .expression), ("condition", .expression),
      ("incrementor", .expression), ("body", .list (.statement true))]
  | .returning => [("expression", .expression)]
  | .block => [("statements", .list (.statement true))]
  | .unsupported => []

theorem Kind.map_fields (kind : Kind) : kind.fields.map Prod.fst = kind.fieldNames := by
  cases kind <;> rfl

/-- The kind and the fields of a tree that has a tag. -/
def node? (inner : Bool) (j : Json) : Option (Kind × Json.Fields) :=
  (tagged? j).bind fun (tag, fields) => (Kind.ofTag? inner tag).map (·, fields)

end Statement

namespace Expression

/-- The role of what a field of an expression holds. -/
def FieldType.role : FieldType → Role
  | .text => .value
  | .optionalText => .value
  | .expression => .expression
  | .expressions => .list .expression

/-- The fields that are looked at in a tree, besides the tag. -/
def fieldsOf (j : Json) : List Field :=
  match Kind.ofTag? (tagOf j) with
  | some kind => kind.fields
  | none => [⟨"text", .text, false⟩]

end Expression

namespace Role

/-- The **fields that are looked at** in a tree, with their roles. -/
def fields : Role → Json → List (String × Role)
  | .record fields, _ => fields
  | .statement inner, j => ((Statement.node? inner j).map fun node => node.1.fields).getD []
  | .expression, j => (Expression.fieldsOf j).map fun field => (field.name, field.type.role)
  | _, _ => []

/-- Whether a tree in a role has a tag. -/
def isTagged : Role → Bool
  | .statement _ => true
  | .expression => true
  | _ => false

/-- Whether members that are not looked at may stand in an object. -/
def isOpen : Role → Bool
  | .record _ => true
  | r => r.isTagged

/-- **The keys that are looked at** in a tree. -/
def keys (r : Role) (j : Json) : List String :=
  (if r.isTagged then ["kind"] else []) ++ (r.fields j).map Prod.fst

/-- The role of the field with a name. -/
def ofName (fields : List (String × Role)) (name : Option String) : Role :=
  (name.bind fun name => fields.lookup name).getD .value

/-- The role of the field at a position. -/
def ofPosition (fields : List (String × Role)) (i : Nat) : Role :=
  (fields[i]?.map Prod.snd).getD .value

/-- The role of an item of an array. A statement starts with its tag. -/
def item (r : Role) (j : Json) (i : Nat) : Role :=
  match r, i with
  | .list item, _ => item
  | .record fields, i => ofPosition fields i
  | .statement inner, i + 1 => ofPosition (fields (.statement inner) j) i
  | _, _ => .value

end Role

/-! ### Edits -/

/-- **An edit** of a tree in a role, where a number of arrays and objects may still be opened. -/
inductive Edit : Role → Nat → Json → Json → Prop
  /-- Members with distinct keys change places. -/
  | permute {r : Role} {d : Nat} {members members' : List Json.Member} :
      (members.filterMap Prod.fst).Nodup → members.Perm members' →
      Edit r d (.object members) (.object members')
  /-- A member is added that is not looked at. -/
  | insert {r : Role} {d : Nat} {before after : List Json.Member} {key : String} {value : Json} :
      r.isOpen = true → key ∉ r.keys (.object (before ++ after)) → value.fits (d - 1) = true →
      Edit r d (.object (before ++ after)) (.object (before ++ (some key, value) :: after))
  /-- The value of a member is edited. -/
  | member {r : Role} {d : Nat} {before after : List Json.Member} {key : Json.Literal}
      {v v' : Json} :
      Edit (.ofName (r.fields (.object (before ++ (key, v) :: after))) key) (d - 1) v v' →
      Edit r d (.object (before ++ (key, v) :: after)) (.object (before ++ (key, v') :: after))
  /-- An item is edited. -/
  | item {r : Role} {d : Nat} {before after : List Json} {v v' : Json} :
      Edit (r.item (.array (before ++ v :: after)) before.length) (d - 1) v v' →
      Edit r d (.array (before ++ v :: after)) (.array (before ++ v' :: after))

namespace Edit

variable {r : Role} {d : Nat} {j j' : Json} {members members' : List Json.Member}
  {fields : List (String × Role)} {name : String}

/-- Only arrays and objects are edited, and stay what they are. -/
theorem compound (h : Edit r d j j') :
    (∃ members members', j = .object members ∧ j' = .object members') ∨
      ∃ items items', j = .array items ∧ j' = .array items' := by
  cases h with
  | item => exact .inr ⟨_, _, rfl, rfl⟩
  | _ => exact .inl ⟨_, _, rfl, rfl⟩

/-- **An edit does not change whether a tree fits.** -/
theorem fits_eq (h : Edit r d j j') : j.fits d = j'.fits d := by
  induction h with
  | permute _ hperm => rw [Json.fits_object, Json.fits_object, hperm.all_eq]
  | insert _ _ hvalue => simp [Json.fits_object, hvalue]
  | member _ ih => simp [Json.fits_object, ih]
  | item _ ih => simp [Json.fits_array, ih]

/-- Keys that have a text stay so. -/
theorem all_isSome (h : Edit r d (.object members) (.object members')) :
    members.all (·.1.isSome) = members'.all (·.1.isSome) := by
  cases h with
  | permute _ hperm => exact hperm.all_eq
  | insert => simp
  | member => simp

/-- **The values under a key that is looked at** are the same, or edited. -/
theorem valuesUnder (h : Edit r d (.object members) (.object members'))
    (hname : name ∈ r.keys (.object members)) :
    List.Forall₂ (ReflGen (Edit (.ofName (r.fields (.object members)) (some name)) (d - 1)))
      (Json.valuesUnder name members) (Json.valuesUnder name members') := by
  cases h with
  | permute hnodup hperm =>
      rw [Json.valuesUnder_eq_of_perm hnodup hperm]
      exact List.forall₂_refl _
  | @insert _ _ before after key value _ hkey _ =>
      have hne : some key ≠ some name := fun h => hkey (Option.some.inj h ▸ hname)
      rw [Json.valuesUnder_append, Json.valuesUnder_append, Json.valuesUnder_cons, if_neg hne]
      exact List.forall₂_refl _
  | @member _ _ before after key v v' hedit =>
      simp only [Json.valuesUnder_append, Json.valuesUnder_cons]
      refine List.rel_append (List.forall₂_refl _) ?_
      by_cases hkey : key = some name
      · rw [if_pos hkey, if_pos hkey]
        exact .cons (.single (hkey ▸ hedit)) (List.forall₂_refl _)
      · rw [if_neg hkey, if_neg hkey]
        exact List.forall₂_refl _

end Edit

/-! ### Fields -/

namespace Role

variable {fields : List (String × Role)} {p : String × Role}

/-- The role of a field, by its name. -/
theorem ofName_of_mem (hnodup : (fields.map Prod.fst).Nodup) (hp : p ∈ fields) :
    ofName fields (some p.1) = p.2 := by
  suffices hlookup : fields.lookup p.1 = some p.2 by
    rw [ofName, Option.bind_some, hlookup, Option.getD_some]
  induction fields with
  | nil => exact absurd hp List.not_mem_nil
  | cons q rest ih =>
      obtain ⟨hq, hnodup⟩ := List.nodup_cons.mp hnodup
      rw [List.lookup_cons]
      rcases List.mem_cons.mp hp with rfl | hp
      · rw [beq_self_eq_true]
      · have hne : (p.1 == q.1) = false :=
          beq_eq_false_iff_ne.mpr fun heq => hq (heq ▸ List.mem_map_of_mem hp)
        rw [hne]
        exact ih hnodup hp

/-- The role of a field, by its position. -/
theorem ofPosition_of_mem (hnodup : (fields.map Prod.fst).Nodup) (hp : p ∈ fields) :
    ofPosition fields ((fields.map Prod.fst).idxOf p.1) = p.2 := by
  obtain ⟨i, hi, rfl⟩ := List.getElem_of_mem hp
  have hindex := hnodup.idxOf_getElem i (by simpa using hi)
  rw [List.getElem_map] at hindex
  rw [hindex, ofPosition, List.getElem?_eq_getElem hi]
  rfl

end Role

/-- What is found under each field is **the same or edited** in the role of the field. -/
def SameLookups (fields : List (String × Role)) (d : Nat) (field field' : String → Option Json) :
    Prop :=
  ∀ p ∈ fields, Option.Rel (ReflGen (Edit p.2 d)) (field p.1) (field' p.1)

/-- Fields are the same or edited: they are those of a record at the same time, and under each of
them the same is found, or something edited. -/
structure SameFields (fields : List (String × Role)) (d : Nat) (found found' : Json.Fields) :
    Prop where
  /-- They are those of a record at the same time. -/
  areOf : found.areOf (fields.map Prod.fst) = found'.areOf (fields.map Prod.fst)
  /-- Each of them is the same or edited. -/
  get? : SameLookups fields d (fun name => found.get? (fields.map Prod.fst) name)
    fun name => found'.get? (fields.map Prod.fst) name

/-- A field that stays as it is. -/
theorem rel_refl {r : Role} {d : Nat} (value : Option Json) :
    Option.Rel (ReflGen (Edit r d)) value value := by
  cases value with
  | none => exact .none
  | some v => exact .some .refl

/-- What holds of two lists holds of their first items. -/
theorem rel_head? {α : Type} {rel : α → α → Prop} {xs ys : List α} (h : List.Forall₂ rel xs ys) :
    Option.Rel rel xs.head? ys.head? := by
  cases h with
  | nil => exact .none
  | cons hfirst _ => exact .some hfirst

/-- What holds of two lists holds of their last items. -/
theorem rel_getLast? {α : Type} {rel : α → α → Prop} {xs ys : List α} (h : List.Forall₂ rel xs ys) :
    Option.Rel rel xs.getLast? ys.getLast? := by
  rw [← List.head?_reverse, ← List.head?_reverse]
  exact rel_head? (List.rel_reverse h)

namespace SameFields

variable {fields : List (String × Role)} {d : Nat}

/-- Fields in an object. -/
theorem named {members members' : List Json.Member}
    (hkeys : members.all (·.1.isSome) = members'.all (·.1.isSome))
    (hvalues : ∀ p ∈ fields, List.Forall₂ (ReflGen (Edit p.2 d)) (Json.valuesUnder p.1 members)
      (Json.valuesUnder p.1 members')) :
    SameFields fields d (.named members) (.named members') := by
  constructor
  · have hlength : ∀ name ∈ fields.map Prod.fst, (Json.valuesUnder name members).length
        = (Json.valuesUnder name members').length := by
      rintro _ hname
      obtain ⟨p, hp, rfl⟩ := List.mem_map.mp hname
      exact (hvalues p hp).length_eq
    rw [Json.Fields.areOf_named, Json.Fields.areOf_named, hkeys]
    congr 1
    rw [Bool.eq_iff_iff, List.all_eq_true, List.all_eq_true]
    exact forall₂_congr fun name hname => by rw [hlength name hname]
  · intro p hp
    simp only [Json.Fields.get?_named]
    exact rel_head? (hvalues p hp)

/-- Fields in an array. -/
theorem positional (hnodup : (fields.map Prod.fst).Nodup) {before after : List Json} {v v' : Json}
    (h : Edit (.ofPosition fields before.length) d v v') :
    SameFields fields d (.positional (before ++ v :: after))
      (.positional (before ++ v' :: after)) := by
  constructor
  · simp [Json.Fields.areOf]
  · intro p hp
    simp only [Json.Fields.get?]
    have hrole := Role.ofPosition_of_mem hnodup hp
    generalize (fields.map Prod.fst).idxOf p.1 = i at hrole
    rcases Nat.lt_trichotomy i before.length with hi | rfl | hi
    · rw [List.getElem?_append_left hi, List.getElem?_append_left hi]
      exact rel_refl _
    · rw [List.getElem?_append_right (Nat.le_refl _), List.getElem?_append_right (Nat.le_refl _),
        Nat.sub_self]
      exact .some (.single (hrole ▸ h))
    · have hle := Nat.le_of_lt hi
      rw [List.getElem?_append_right hle, List.getElem?_append_right hle, List.getElem?_cons,
        List.getElem?_cons, if_neg (by omega), if_neg (by omega)]
      exact rel_refl _

end SameFields

/-! ### Readers -/

/-- A reader **overlooks** the edits of a tree if it reads the same from the edited one. -/
def Overlooks {α : Type} (r : Role) (d : Nat) (read : Json → Option α) (v : Json) : Prop :=
  ∀ ⦃v' : Json⦄, Edit r d v v' → read v = read v'

/-- No text is edited. -/
theorem overlooks_text? {r : Role} {d : Nat} (v : Json) : Overlooks r d Json.text? v := by
  intro v' h
  rcases h.compound with ⟨_, _, rfl, rfl⟩ | ⟨_, _, rfl, rfl⟩ <;> rfl

/-- Edits are not seen in a field whose reader overlooks them. -/
theorem bind_eq_of_rel {α : Type} {r : Role} {d : Nat} {read : Json → Option α}
    {value value' : Option Json} (h : ∀ v ∈ value, Overlooks r d read v)
    (hvalue : Option.Rel (ReflGen (Edit r d)) value value') :
    value.bind read = value'.bind read := by
  cases hvalue with
  | none => rfl
  | some hv =>
      cases hv with
      | refl => rfl
      | single hedit => exact h _ rfl hedit

/-! ### What each reader sees -/

namespace Edit

variable {d : Nat} {j j' : Json}

/-- **What an edit does to a record**: it still is one or is none, and its fields are the same or
edited. -/
theorem record {fields : List (String × Role)} (h : Edit (.record fields) d j j')
    (hnodup : (fields.map Prod.fst).Nodup) :
    Option.Rel (SameFields fields (d - 1)) j.fields? j'.fields? := by
  rcases h.compound with ⟨members, members', rfl, rfl⟩ | ⟨items, items', rfl, rfl⟩
  · refine .some (.named h.all_isSome fun p hp => ?_)
    have hvalues := h.valuesUnder (List.mem_append_right _ (List.mem_map_of_mem hp))
    rwa [Role.fields, Role.ofName_of_mem hnodup hp] at hvalues
  · cases h with
    | item hedit => exact .some (.positional hnodup hedit)

/-- Edits are not seen in a tag. -/
theorem ofTag?_eq {r : Role} {inner : Bool} (h : ReflGen (Edit r d) j j') :
    Statement.Kind.ofTag? inner j = Statement.Kind.ofTag? inner j' := by
  cases h with
  | refl => rfl
  | single h => rcases h.compound with ⟨_, _, rfl, rfl⟩ | ⟨_, _, rfl, rfl⟩ <;> rfl

/-- The item of a list that has only one. -/
def only? {α : Type} : List α → Option α
  | [x] => some x
  | _ => none

/-- What holds of two lists holds of their only items. -/
theorem rel_only? {α : Type} {rel : α → α → Prop} {xs ys : List α} (h : List.Forall₂ rel xs ys) :
    Option.Rel rel (only? xs) (only? ys) := by
  cases h with
  | nil => exact .none
  | cons hfirst hrest =>
      cases hrest with
      | nil => exact .some hfirst
      | cons => exact .none

/-- The kind and the fields of an object. -/
theorem node?_object (inner : Bool) (members : List Json.Member) :
    Statement.node? inner (.object members) =
      (only? (Json.valuesUnder "kind" members)).bind fun tag =>
        (Statement.Kind.ofTag? inner tag).map
          (·, .named (members.filter (·.1 != some "kind"))) := by
  have htagged : Statement.tagged? (.object members) = (only? (Json.valuesUnder "kind" members)).map
      (·, .named (members.filter (·.1 != some "kind"))) := by
    simp only [Statement.tagged?, Json.valuesUnder]
    generalize members.filter (·.1 == some "kind") = tags
    rcases tags with _ | ⟨⟨key, tag⟩, _ | ⟨m, rest⟩⟩ <;> rfl
  rw [Statement.node?, htagged, Option.bind_map]
  rfl

/-- The fields of a statement have different names, and none is called like the tag. -/
theorem nodup_fields (kind : Statement.Kind) :
    (kind.fields.map Prod.fst).Nodup ∧ "kind" ∉ kind.fields.map Prod.fst := by
  rw [kind.map_fields]
  cases kind <;> decide

/-- The fields that are looked at in a statement. -/
theorem fields_statement {inner : Bool} {kind : Statement.Kind} {found : Json.Fields}
    (h : Statement.node? inner j = some (kind, found)) :
    Role.fields (.statement inner) j = kind.fields := by
  rw [Role.fields, h]
  rfl

/-- Statements of the same kind whose fields are the same or edited. -/
def SameNode (d : Nat) (node node' : Statement.Kind × Json.Fields) : Prop :=
  node.1 = node'.1 ∧ SameFields node.1.fields d node.2 node'.2

/-- What an edit does to a statement in an object. -/
theorem statement_object {inner : Bool} {members members' : List Json.Member}
    (h : Edit (.statement inner) d (.object members) (.object members')) :
    Option.Rel (SameNode (d - 1))
      (Statement.node? inner (.object members)) (Statement.node? inner (.object members')) := by
  have hnode := node?_object inner members
  have htags := rel_only? (h.valuesUnder
    (List.mem_append_left _ (List.mem_singleton.mpr (Eq.refl "kind"))))
  rw [node?_object inner members']
  generalize only? (Json.valuesUnder "kind" members') = tag' at htags
  generalize only? (Json.valuesUnder "kind" members) = tag at htags hnode
  cases htags with
  | none =>
      rw [hnode]
      exact .none
  | @some tag tag' htag =>
      rw [Option.bind_some] at hnode ⊢
      rw [← ofTag?_eq htag]
      rcases hkind : Statement.Kind.ofTag? inner tag with _ | kind <;> rw [hkind] at hnode <;>
        rw [hnode]
      · exact .none
      obtain ⟨hnodup, htagless⟩ := nodup_fields kind
      have hfields := fields_statement hnode
      refine .some ⟨rfl, .named ?_ fun p hp => ?_⟩
      · rw [Json.all_isSome_filter, Json.all_isSome_filter, h.all_isSome]
      · have hmem : p.1 ∈ kind.fields.map Prod.fst := List.mem_map_of_mem hp
        have hne : p.1 ≠ "kind" := fun heq => htagless (heq ▸ hmem)
        have hvalues := h.valuesUnder (List.mem_append_right _ (hfields ▸ hmem))
        rw [hfields, Role.ofName_of_mem hnodup hp] at hvalues
        rwa [Json.valuesUnder_filter hne, Json.valuesUnder_filter hne]

/-- What an edit does to a statement in an array. -/
theorem statement_array {inner : Bool} {items items' : List Json}
    (h : Edit (.statement inner) d (.array items) (.array items')) :
    Option.Rel (SameNode (d - 1))
      (Statement.node? inner (.array items)) (Statement.node? inner (.array items')) := by
  have hnode (tag : Json) (rest : List Json) : Statement.node? inner (.array (tag :: rest))
      = (Statement.Kind.ofTag? inner tag).map (·, .positional rest) := rfl
  cases h with
  | @item _ _ before after v v' hedit =>
    rcases before with _ | ⟨tag, before⟩
    · -- The tag is edited, so it was no tag before.
      have htag : Statement.Kind.ofTag? inner v = none ∧ Statement.Kind.ofTag? inner v' = none := by
        rcases hedit.compound with ⟨_, _, rfl, rfl⟩ | ⟨_, _, rfl, rfl⟩ <;> exact ⟨rfl, rfl⟩
      rw [List.nil_append, List.nil_append, hnode, hnode, htag.1, htag.2]
      exact .none
    · rw [List.cons_append] at hedit
      rw [List.cons_append, List.cons_append, hnode, hnode]
      rcases hkind : Statement.Kind.ofTag? inner tag with _ | kind
      · exact .none
      have hstatement := hnode tag (before ++ v :: after)
      rw [hkind] at hstatement
      rw [List.length_cons, Role.item, fields_statement hstatement] at hedit
      exact .some ⟨rfl, .positional (nodup_fields kind).1 hedit⟩

/-- **What an edit does to a statement**: it keeps its kind, and its fields are the same or
edited. -/
theorem statement {inner : Bool} (h : Edit (.statement inner) d j j') :
    Option.Rel (SameNode (d - 1))
      (Statement.node? inner j) (Statement.node? inner j') := by
  rcases h.compound with ⟨members, members', rfl, rfl⟩ | ⟨items, items', rfl, rfl⟩
  · exact h.statement_object
  · exact h.statement_array

/-- The fields that are looked at in an expression have different names. -/
theorem nodup_fieldsOf (j : Json) : ((Role.fields .expression j).map Prod.fst).Nodup := by
  rw [Role.fields, List.map_map, Expression.fieldsOf]
  rcases Expression.Kind.ofTag? (Expression.tagOf j) with _ | kind
  · decide
  · cases kind <;> decide

/-- **What an edit does to an expression**: it keeps its tag, and the fields that are looked at are
the same or edited. -/
theorem expression (h : Edit .expression d j j') :
    Expression.tagOf j = Expression.tagOf j' ∧ ∀ field ∈ Expression.fieldsOf j,
      Option.Rel (ReflGen (Edit field.type.role (d - 1))) (j.get? field.name)
        (j'.get? field.name) := by
  rcases h.compound with ⟨members, members', rfl, rfl⟩ | ⟨items, items', rfl, rfl⟩
  · have hget {name : String} (hname : name ∈ Role.keys .expression (.object members)) := by
      have hvalues := rel_getLast? (h.valuesUnder hname)
      rwa [← Json.lastValue?_eq_getLast?, ← Json.lastValue?_eq_getLast?] at hvalues
    constructor
    · have htag := hget (List.mem_append_left _ (List.mem_singleton.mpr (Eq.refl "kind")))
      rw [Expression.tagOf, Expression.tagOf, Json.get?, Json.get?,
        bind_eq_of_rel (fun v _ => overlooks_text? v) htag]
    · intro field hfield
      have hmem : (field.name, field.type.role) ∈ Role.fields .expression (.object members) :=
        List.mem_map_of_mem hfield
      have hvalue := hget (List.mem_append_right _ (List.mem_map_of_mem hmem))
      rwa [Role.ofName_of_mem (nodup_fieldsOf _) hmem] at hvalue
  · exact ⟨rfl, fun _ _ => .none⟩

end Edit

end DelphiUnits.Source

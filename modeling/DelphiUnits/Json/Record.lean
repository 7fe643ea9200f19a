import DelphiUnits.Json.Basic

/-!
# Records in JSON

A record with named fields is written as an object, or as an array of its fields in their
fixed order. In an object a field stands at most once and members that are no field are
passed over, whatever their values; in an array the last fields may be left out and nothing
may follow them.
-/

namespace DelphiUnits.Json

/-- The fields of a record as they are written. -/
inductive Fields where
  | named (members : List Member)
  | positional (items : List Json)

/-- The fields of a tree that is written as a record. -/
def fields? : Json → Option Fields
  | .object members => some (.named members)
  | .array items => some (.positional items)
  | _ => none

namespace Fields

/-- Whether fields are those of a record with the given names: keys have a text, no field
stands twice, and there are no more fields than names. -/
def areOf (names : List String) : Fields → Bool
  | .named members =>
    members.all (·.1.isSome) &&
      names.all fun name => (members.filter (·.1 == some name)).length ≤ 1
  | .positional items => items.length ≤ names.length

/-- The value of a field. -/
def get? (names : List String) (name : String) : Fields → Option Json
  | .named members => (members.find? (·.1 == some name)).map Prod.snd
  | .positional items => items[names.idxOf name]?

end Fields

/-- **Look up the fields of a record** with the given names, none if the tree is no such
record. -/
def record? (names : List String) (j : Json) : Option (String → Option Json) :=
  match j.fields? with
  | some fields => if fields.areOf names then some fun name => fields.get? names name else none
  | none => none

/-! ### Fields -/

/-- A reader takes the number of arrays and objects that may still be opened. -/
abbrev Reader (α : Type) := Nat → Json → Option α

/-- Read a field that has to be there. -/
def required {α : Type} (read : Json → Option α) : Option Json → Option α
  | some j => read j
  | none => none

/-- Read a field that has a value of its own when it is left out. -/
def withDefault {α : Type} (default : α) (read : Json → Option α) : Option Json → Option α
  | some j => read j
  | none => some default

/-- Read a field that may be left out or `null`. -/
def optional {α : Type} (read : Json → Option α) : Option Json → Option (Option α)
  | some .null => some none
  | some j => (read j).map some
  | none => some none

/-- Read all items of an array. -/
def listOf {α : Type} (read : Reader α) : Reader (List α)
  | depth + 1, .array items => items.mapM (read depth)
  | _, _ => none

/-- Read a record, whose fields may open one array or object less. -/
def recordOf {α : Type} (names : List String)
    (read : Nat → (String → Option Json) → Option α) : Reader α
  | depth + 1, j => (j.record? names).bind (read depth)
  | 0, _ => none

/-! ### Sizes -/

theorem Fields.sizeOf_get?_lt {names : List String} {name : String} {fields : Fields} {v : Json}
    (h : fields.get? names name = some v) : sizeOf v < sizeOf fields := by
  cases fields with
  | named members =>
      obtain ⟨m, hm, rfl⟩ := Option.map_eq_some_iff.1 h
      have := List.sizeOf_lt_of_mem (List.mem_of_find?_eq_some hm)
      obtain ⟨k, w⟩ := m
      simp only [Prod.mk.sizeOf_spec, Fields.named.sizeOf_spec] at *
      omega
  | positional items =>
      have := List.sizeOf_lt_of_mem (List.mem_of_getElem? h)
      simp only [Fields.positional.sizeOf_spec]
      omega

end DelphiUnits.Json

import Mathlib.Logic.Basic
import DelphiUnits.Json.Record
import DelphiUnits.Proofs.Json.Nesting

/-!
# Reading records that were written

A record is written with all of its fields, each once and in their order. Looking up its fields
then is looking up a list of pairs, and none of the conditions on records can fail.

A reader **reads back** what a writer writes if it gives the value back whenever the written
tree is no deeper than the bound, and nothing otherwise. The bound falls by one with every
array and object that is entered, on both sides in the same way.

## Main results

* `record?_record`: the fields of a written record;
* `ReadsBack.listOf`: reading back items is reading back lists of them;
* `ReadsBack.recordOf`: reading back fields is reading back records of them.
-/

namespace DelphiUnits.Json

/-! ### Fields -/

namespace Fields

/-- The fields of a record as they are written. -/
def ofPairs (pairs : List (String × Json)) : Fields :=
  .named (pairs.map fun (key, value) => (some key, value))

/-- Looking up a field that was written. -/
theorem get?_ofPairs (names : List String) (name : String) (pairs : List (String × Json)) :
    (ofPairs pairs).get? names name = pairs.lookup name := by
  rw [ofPairs, get?]
  induction pairs with
  | nil => rfl
  | cons pair rest ih =>
      obtain ⟨key, value⟩ := pair
      rw [List.map_cons, List.lookup_cons]
      by_cases hkey : key = name
      · simp [hkey]
      · have hne : (name == key) = false := beq_eq_false_iff_ne.2 (Ne.symm hkey)
        rw [List.find?_cons_of_neg (by simpa using hkey), ih, hne]

/-- Fields that are written once each are those of their record. -/
theorem areOf_ofPairs {names : List String} {pairs : List (String × Json)}
    (hnames : pairs.map Prod.fst = names) (hnodup : names.Nodup) :
    (ofPairs pairs).areOf names = true := by
  have hkeys : (pairs.map fun (key, value) => ((some key, value) : Member)).all (·.1.isSome) := by
    simp
  have hcount (name : String) :
      ((pairs.map fun (key, value) => ((some key, value) : Member)).filter
        (·.1 == some name)).length = names.count name := by
    rw [← List.countP_eq_length_filter, ← hnames, List.count, List.countP_map, List.countP_map]
    rfl
  rw [ofPairs, areOf, hkeys, Bool.true_and, List.all_eq_true]
  intro name _
  rw [hcount, decide_eq_true_iff]
  exact List.nodup_iff_count.1 hnodup name

end Fields

/-- **The fields of a written record.** -/
theorem record?_record (names : List String) {pairs : List (String × Json)}
    (hnames : pairs.map Prod.fst = names) (hnodup : names.Nodup) :
    (record pairs).record? names = some fun name => pairs.lookup name := by
  have hfields : (record pairs).fields? = some (Fields.ofPairs pairs) := rfl
  simp only [record?, hfields, Fields.areOf_ofPairs hnames hnodup, ↓reduceIte,
    Fields.get?_ofPairs]

/-! ### Readers -/

/-- A reader **reads back** what a writer writes, up to its bound on the depth and not
beyond. -/
def ReadsBack {α : Type} (read : Reader α) (write : α → Json) : Prop :=
  ∀ n x, read n (write x) = if (write x).depth ≤ n then some x else none

/-- Reading a text that was written. -/
@[simp] theorem text?_text (s : String) : (text s).text? = some s := rfl

/-- Reading a truth value that was written. -/
@[simp] theorem bool?_bool (b : Bool) : (bool b).bool? = some b := rfl

/-- Reading a text that was written if there is one. -/
@[simp] theorem optional_optionalText (s : Option String) :
    optional text? (some (optionalText s)) = some s := by
  cases s <;> rfl

/-- Reading a value that may be `null` and is not. -/
theorem optional_some {α : Type} {read : Json → Option α} {j : Json} (hj : j ≠ .null) :
    optional read (some j) = (read j).map some := by
  cases j with
  | null => exact absurd rfl hj
  | _ => rfl

@[simp] theorem depth_text (s : String) : (text s).depth = 0 := rfl

@[simp] theorem depth_bool (b : Bool) : (bool b).depth = 0 := rfl

@[simp] theorem depth_optionalText (s : Option String) : (optionalText s).depth = 0 := by
  cases s <;> rfl

/-- The depth of an array. -/
theorem depth_array (items : List Json) : (array items).depth = depthOfItems items + 1 := by
  rw [depth]

/-- The depth of the deepest field. -/
def depthOfFields (pairs : List (String × Json)) : Nat :=
  depthOfMembers (pairs.map fun (key, value) => (some key, value))

@[simp] theorem depthOfFields_nil : depthOfFields [] = 0 := rfl

@[simp] theorem depthOfFields_cons (pair : String × Json) (rest : List (String × Json)) :
    depthOfFields (pair :: rest) = max pair.2.depth (depthOfFields rest) := rfl

/-- The depth of a record. -/
theorem depth_record (pairs : List (String × Json)) :
    (record pairs).depth = depthOfFields pairs + 1 := by
  rw [record, depth, depthOfFields]

/-- Going on with what was read within a bound. -/
theorem bind_ite_depth {α β : Type} (n d : Nat) (x : α) (f : α → Option β) :
    (if d ≤ n then some x else none).bind f = if d ≤ n then f x else none := by
  split <;> rfl

/-- Reading back the items of a list one after the other. -/
theorem ReadsBack.mapM {α : Type} {read : Reader α} {write : α → Json}
    (h : ReadsBack read write) (n : Nat) (xs : List α) :
    (xs.map write).mapM (read n) =
      if depthOfItems (xs.map write) ≤ n then some xs else none := by
  induction xs with
  | nil => rfl
  | cons x xs ih =>
      rw [List.map_cons, List.mapM_cons, h n x, ih, depthOfItems]
      simp only [Option.bind_eq_bind, Option.pure_def, bind_ite_depth, Nat.max_le, ite_and]

/-- **Reading back items is reading back lists of them.** -/
theorem ReadsBack.listOf {α : Type} {read : Reader α} {write : α → Json}
    (h : ReadsBack read write) : ReadsBack (listOf read) fun xs => .array (xs.map write) := by
  intro n xs
  cases n with
  | zero => simp [Json.listOf, depth_array]
  | succ n =>
      rw [Json.listOf, h.mapM n xs, depth_array]
      simp

/-- **Reading back the fields is reading back the record**, whose bound is one more. -/
theorem ReadsBack.recordOf {α : Type} {names : List String}
    {read : Nat → (String → Option Json) → Option α} {pairs : α → List (String × Json)}
    (hnames : ∀ x, (pairs x).map Prod.fst = names) (hnodup : names.Nodup)
    (hread : ∀ n x, read n (fun name => (pairs x).lookup name) =
      if depthOfFields (pairs x) ≤ n then some x else none) :
    ReadsBack (recordOf names read) fun x => .record (pairs x) := by
  intro n x
  cases n with
  | zero => simp [Json.recordOf, depth_record]
  | succ n =>
      rw [Json.recordOf, record?_record names (hnames x) hnodup, Option.bind_some, hread n x,
        depth_record]
      simp

end DelphiUnits.Json

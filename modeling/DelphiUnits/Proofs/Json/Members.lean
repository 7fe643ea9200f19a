import Mathlib.Data.List.Nodup
import DelphiUnits.Json.Record

/-!
# The members of an object under a key

Readers of objects differ in what they do about keys that stand more than once: one takes the last
value, one refuses. What all of them ask is which values there are under a key, and in what order.
That list does not depend on the order of the members as long as keys are distinct.

## Main results

* `valuesUnder_eq_of_perm`: the values under a key, if members with distinct keys change places;
* `lastValue?_eq_getLast?`, `Fields.get?_named`, `Fields.areOf_named`: readers of objects in terms
  of the values under a key.
-/

namespace DelphiUnits.Json

variable {name : String} {members members' : List Member}

/-- The **values under a key**, in the order of the members. -/
def valuesUnder (name : String) (members : List Member) : List Json :=
  (members.filter (·.1 == some name)).map Prod.snd

/-- The values under a key in two runs of members. -/
theorem valuesUnder_append :
    valuesUnder name (members ++ members') =
      valuesUnder name members ++ valuesUnder name members' := by
  rw [valuesUnder, List.filter_append, List.map_append, valuesUnder, valuesUnder]

/-- A member counts under its own key only. -/
theorem valuesUnder_cons (key : Literal) (v : Json) :
    valuesUnder name ((key, v) :: members)
      = if key = some name then v :: valuesUnder name members else valuesUnder name members := by
  rw [valuesUnder, List.filter_cons]
  by_cases hkey : key = some name <;> simp [hkey, valuesUnder]

/-- Leaving out the members under one key does not change the values under another. -/
theorem valuesUnder_filter {other : String} (h : name ≠ other) :
    valuesUnder name (members.filter (·.1 != some other)) = valuesUnder name members := by
  rw [valuesUnder, List.filter_filter, valuesUnder]
  congr 1
  refine List.filter_congr fun m _ => ?_
  by_cases hkey : m.1 = some name <;> simp [hkey, h]

/-- Nor does it change whether all keys have a text. -/
theorem all_isSome_filter (other : String) :
    (members.filter (·.1 != some other)).all (·.1.isSome) = members.all (·.1.isSome) := by
  rw [List.all_filter]
  congr 1
  funext m
  rcases m.1 with _ | key <;> simp

/-- There are as many values under a key as the key stands. -/
theorem length_valuesUnder (name : String) (members : List Member) :
    (valuesUnder name members).length = (members.filterMap Prod.fst).count name := by
  induction members with
  | nil => rfl
  | cons m rest ih =>
      obtain ⟨_ | key, v⟩ := m
      · simpa [valuesUnder_cons] using ih
      · by_cases hkey : key = name <;> simp [valuesUnder_cons, hkey, ih]

/-- **Members with distinct keys may change places.** -/
theorem valuesUnder_eq_of_perm (hnodup : (members.filterMap Prod.fst).Nodup)
    (h : members.Perm members') : valuesUnder name members = valuesUnder name members' := by
  have hperm : (valuesUnder name members).Perm (valuesUnder name members') :=
    (h.filter _).map _
  have hlength : (valuesUnder name members).length ≤ 1 := by
    rw [length_valuesUnder]
    exact List.nodup_iff_count.mp hnodup name
  rcases hvalues : valuesUnder name members with _ | ⟨v, _ | ⟨w, rest⟩⟩ <;>
    rw [hvalues] at hperm hlength
  · exact (List.perm_nil.mp hperm.symm).symm
  · exact (List.perm_singleton.mp hperm.symm).symm
  · simp at hlength

/-- The last value under a key. -/
theorem lastValue?_eq_getLast? :
    lastValue? name members = (valuesUnder name members).getLast? := by
  induction members with
  | nil => rfl
  | cons m rest ih =>
      obtain ⟨key, v⟩ := m
      rw [lastValue?, ih, valuesUnder_cons]
      by_cases hkey : key = some name
      · rw [if_pos hkey, if_pos hkey]
        rcases valuesUnder name rest with _ | ⟨w, ws⟩
        · rfl
        · rw [List.getLast?_cons_cons, List.getLast?_cons]
      · rw [if_neg hkey, if_neg hkey]
        rcases (valuesUnder name rest).getLast? with _ | w <;> rfl

/-- The field of a record is the first value under its name. -/
theorem Fields.get?_named (names : List String) :
    (Fields.named members).get? names name = (valuesUnder name members).head? := by
  rw [Fields.get?, valuesUnder, List.head?_map, List.head?_filter]

/-- The fields of a record stand at most once, and all keys have a text. -/
theorem Fields.areOf_named (names : List String) :
    (Fields.named members).areOf names = (members.all (·.1.isSome) &&
      names.all fun name => (valuesUnder name members).length ≤ 1) := by
  simp only [Fields.areOf, valuesUnder, List.length_map]

/-! ### What fits -/

/-- What an array has to be like to fit. -/
theorem fits_array (depth : Nat) (items : List Json) :
    (array items).fits depth = (decide (0 < depth) && items.all (fits (depth - 1))) := by
  have hall (depth : Nat) : fitsAll depth items = items.all (fits depth) := by
    induction items with
    | nil => rfl
    | cons item rest ih => rw [fitsAll, List.all_cons, ih]
  cases depth with
  | zero => rfl
  | succ depth => simp [fits, hall]

/-- What an object has to be like to fit. -/
theorem fits_object (depth : Nat) (members : List Member) :
    (object members).fits depth
      = (decide (0 < depth) && members.all fun m => m.1.isSome && m.2.fits (depth - 1)) := by
  have hall (depth : Nat) :
      fitsMembers depth members = members.all fun m => m.1.isSome && m.2.fits depth := by
    induction members with
    | nil => rfl
    | cons m rest ih => rw [fitsMembers, List.all_cons, ih]
  cases depth with
  | zero => rfl
  | succ depth => simp [fits, hall]

end DelphiUnits.Json

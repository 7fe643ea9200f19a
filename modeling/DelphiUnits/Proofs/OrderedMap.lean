import DelphiUnits.OrderedMap
import Mathlib.Data.List.Induction
import Mathlib.Data.List.Nodup

/-!
# Maps in order of insertion: what insertion does

Inserting under a key changes what is under that key and nothing else, adds the key if it is new,
and keeps the keys of a map distinct.

## Main results

* `keys_insert`: the keys after an insertion;
* `find?_insert`: what is under a key after an insertion;
* `find?_eq_some_iff`: where keys are distinct, the pairs of a map say what is under its keys;
* `mem_keys_insertMany`, `mem_insertMany_iff`: what a map has after several insertions;
* `mem_insertMany_map_iff`: the same for items that are inserted one after the other.
-/

namespace DelphiUnits.OrderedMap

variable {κ ν : Type} [DecidableEq κ] {m : OrderedMap κ ν} {k key : κ} {v value : ν}

/-! ### Keys -/

/-- **The keys after an insertion**: a key that is new comes behind the others, and one that is there
stays in its place. -/
theorem keys_insert :
    (m.insert key value).keys = if key ∈ m.keys then m.keys else m.keys ++ [key] := by
  induction m with
  | nil => rfl
  | cons pair rest ih =>
      obtain ⟨k', v'⟩ := pair
      by_cases hkey : k' = key
      · subst hkey
        simp [insert, keys]
      · have hrest : (insert ((k', v') :: rest) key value).keys
            = k' :: (insert rest key value).keys := by
          rw [insert, if_neg hkey]
          rfl
        have hmem : key ∈ keys ((k', v') :: rest) ↔ key ∈ keys rest := by
          simp [keys, Ne.symm hkey]
        rw [hrest, ih]
        simp only [hmem]
        split <;> rfl

/-- The keys after an insertion are those before and the new one. -/
theorem mem_keys_insert : k ∈ (m.insert key value).keys ↔ k = key ∨ k ∈ m.keys := by
  rw [keys_insert]
  split
  · next hknown => exact ⟨.inr, fun h => h.elim (fun heq => heq ▸ hknown) id⟩
  · rw [List.mem_append, List.mem_singleton]
    exact or_comm

/-- The keys after several insertions. -/
theorem mem_keys_insertMany {pairs : List (κ × ν)} :
    k ∈ (m.insertMany pairs).keys ↔ k ∈ m.keys ∨ k ∈ pairs.map Prod.fst := by
  induction pairs generalizing m with
  | nil => simp [insertMany]
  | cons pair rest ih =>
      rw [insertMany, List.foldl_cons, ← insertMany, ih, mem_keys_insert, List.map_cons,
        List.mem_cons]
      tauto

/-- **Distinct keys stay distinct.** -/
theorem nodup_keys_insert (h : m.keys.Nodup) : (m.insert key value).keys.Nodup := by
  rw [keys_insert]
  split
  · exact h
  · next hnew =>
    rw [List.nodup_append]
    refine ⟨h, List.nodup_singleton _, fun k hk k' hk' heq => hnew ?_⟩
    obtain rfl := List.mem_singleton.mp hk'
    exact heq ▸ hk

/-- Distinct keys stay distinct through several insertions. -/
theorem nodup_keys_insertMany {pairs : List (κ × ν)} (h : m.keys.Nodup) :
    (m.insertMany pairs).keys.Nodup := by
  induction pairs generalizing m with
  | nil => exact h
  | cons pair rest ih => exact ih (nodup_keys_insert h)

/-! ### Values -/

section Find

variable [BEq κ] [LawfulBEq κ]

/-- **What is under a key** after an insertion. -/
theorem find?_insert :
    ((m.insert key value).find? (·.1 == k)).map Prod.snd
      = if k = key then some value else (m.find? (·.1 == k)).map Prod.snd := by
  induction m with
  | nil =>
      by_cases hk : k = key
      · simp [insert, hk]
      · simp [insert, hk, Ne.symm hk]
  | cons pair rest ih =>
      obtain ⟨k', v'⟩ := pair
      by_cases hkey : k' = key
      · subst hkey
        by_cases hk : k = k'
        · simp [insert, hk]
        · simp [insert, hk, Ne.symm hk]
      · by_cases hk : k' = k
        · subst hk
          simp [insert, hkey]
        · simp [insert, hkey, hk, ih]

/-- Where keys are distinct, a pair is in the map exactly if its value is under its key. -/
theorem find?_eq_some_iff (h : m.keys.Nodup) :
    (m.find? (·.1 == k)).map Prod.snd = some v ↔ (k, v) ∈ m := by
  induction m with
  | nil => simp
  | cons pair rest ih =>
      obtain ⟨k', v'⟩ := pair
      obtain ⟨hfirst, hrest⟩ := List.nodup_cons.mp h
      by_cases hk : k' = k
      · subst hk
        have hother : (k', v) ∉ rest := fun hmem =>
          hfirst (List.mem_map.mpr ⟨(k', v), hmem, rfl⟩)
        simp [hother, eq_comm]
      · simp [hk, Ne.symm hk, ih hrest]

end Find

/-- Where keys are distinct, an insertion puts its pair in the map and takes away what was under its
key. -/
theorem mem_insert_iff (h : m.keys.Nodup) :
    (k, v) ∈ m.insert key value ↔ (k = key ∧ v = value) ∨ (k ≠ key ∧ (k, v) ∈ m) := by
  rw [← find?_eq_some_iff (nodup_keys_insert h), find?_insert, ← find?_eq_some_iff h]
  by_cases hk : k = key
  · simp [hk, eq_comm]
  · simp [hk]

/-- **What is in a map after several insertions** is what was inserted last under its key. -/
theorem mem_insertMany_iff {pairs : List (κ × ν)} :
    (k, v) ∈ insertMany [] pairs ↔
      ∃ before after, pairs = before ++ (k, v) :: after ∧ k ∉ after.map Prod.fst := by
  induction pairs using List.reverseRecOn with
  | nil => simp [insertMany]
  | append_singleton pairs pair ih =>
      have hlast : insertMany [] (pairs ++ [pair])
          = (insertMany [] pairs).insert pair.1 pair.2 := by
        rw [insertMany, List.foldl_append]
        rfl
      have hnodup : (insertMany ([] : OrderedMap κ ν) pairs).keys.Nodup :=
        nodup_keys_insertMany List.nodup_nil
      rw [hlast, mem_insert_iff hnodup, ih]
      constructor
      · rintro (⟨rfl, rfl⟩ | ⟨hk, before, after, rfl, hlater⟩)
        · exact ⟨pairs, [], rfl, List.not_mem_nil⟩
        · refine ⟨before, after ++ [pair], by simp, ?_⟩
          rw [List.map_append, List.mem_append]
          exact not_or.mpr ⟨hlater, by simpa using hk⟩
      · rintro ⟨before, after, hsplit, hlater⟩
        -- The pair is the last one, or stands before it.
        cases after using List.reverseRecOn with
        | nil =>
            obtain ⟨rfl, hpair⟩ := List.append_inj' hsplit rfl
            obtain rfl := List.singleton_inj.mp hpair
            exact .inl ⟨rfl, rfl⟩
        | append_singleton after other =>
            rw [← List.cons_append, ← List.append_assoc] at hsplit
            obtain ⟨rfl, hpair⟩ := List.append_inj' hsplit rfl
            obtain rfl := List.singleton_inj.mp hpair
            rw [List.map_append, List.mem_append, not_or] at hlater
            exact .inr ⟨by simpa using hlater.2, before, after, rfl, hlater.1⟩

/-- **What is in a map of items** after they were inserted one after the other: each key has the
value of the last item with that key. -/
theorem mem_insertMany_map_iff {α : Type} {keyOf : α → κ} {valueOf : α → ν} {items : List α} :
    (k, v) ∈ insertMany [] (items.map fun x => (keyOf x, valueOf x)) ↔
      ∃ before x after, items = before ++ x :: after ∧ keyOf x = k ∧ k ∉ after.map keyOf ∧
        v = valueOf x := by
  rw [mem_insertMany_iff]
  constructor
  · rintro ⟨before, after, hsplit, hlast⟩
    obtain ⟨before, rest, rfl, rfl, hrest⟩ := List.map_eq_append_iff.mp hsplit
    obtain ⟨x, after, rfl, hx, rfl⟩ := List.map_eq_cons_iff.mp hrest
    obtain ⟨rfl, rfl⟩ := Prod.mk.inj hx
    rw [List.map_map] at hlast
    exact ⟨before, x, after, rfl, rfl, hlast, rfl⟩
  · rintro ⟨before, x, after, rfl, rfl, hlast, rfl⟩
    refine ⟨before.map fun x => (keyOf x, valueOf x), after.map fun x => (keyOf x, valueOf x), ?_,
      ?_⟩
    · rw [List.map_append, List.map_cons]
    · rw [List.map_map]
      exact hlast

end DelphiUnits.OrderedMap

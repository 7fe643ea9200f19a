import DelphiUnits.Proofs.Pascal.Registry

/-!
# What a run registers

A run of registrations from an empty unit leaves three lists. Each of them can be read off the run
without going through it step by step: it has the items that the registrations bring, in their
order, **the first one of each key**. A routine has in addition all the statements that were pushed
onto its key anywhere in the run. Of the main blocks that were set **the last one** is left.

## Main results

* `mem_addAll_iff`: an item is in such a list exactly if it is the first one of its key;
* `addAll_nil_eq_eraseDupsBy`: such a list has all items but those that repeat a key;
* `CompilationUnit.usedUnits_registerAll`, `types_registerAll`, `routines_registerAll`: the three
  lists of a run;
* `CompilationUnit.body_registerAll`: the main block of a run.
-/

namespace DelphiUnits.Pascal

open Source (Statement)
open Text (normalizeIdentifier)

/-! ### The first item of each key -/

section Keys

variable {α κ : Type} [DecidableEq κ] {key : α → κ} {x : α}

/-- **Items added to a list** one after the other, each unless its key is there. -/
def addAll (key : α → κ) (xs ys : List α) : List α :=
  ys.foldl (addNew key) xs

@[simp] theorem addAll_nil (key : α → κ) (xs : List α) : addAll key xs [] = xs := rfl

@[simp] theorem addAll_concat (key : α → κ) (xs ys : List α) (y : α) :
    addAll key xs (ys ++ [y]) = addNew key (addAll key xs ys) y := by
  rw [addAll, List.foldl_append]
  rfl

/-- The item of a new key is added, and all others stay. -/
theorem mem_addNew_iff {xs : List α} {y : α} :
    x ∈ addNew key xs y ↔ x ∈ xs ∨ x = y ∧ key y ∉ xs.map key := by
  rw [addNew]
  split
  · next hknown => exact ⟨.inl, fun h => h.elim id fun hnew => absurd hknown hnew.2⟩
  · next hnew => simp [hnew]

/-- A list has exactly the keys of the items that were added to it. -/
theorem mem_map_addAll_iff {k : κ} {ys : List α} :
    k ∈ (addAll key [] ys).map key ↔ k ∈ ys.map key := by
  induction ys using List.reverseRecOn with
  | nil => rfl
  | append_singleton ys y ih =>
      rw [addAll_concat, List.map_append, List.mem_append, ← ih, addNew]
      split
      · next hknown =>
        simp only [List.map_singleton, List.mem_singleton]
        exact ⟨.inl, fun h => h.elim id fun heq => heq ▸ hknown⟩
      · rw [List.map_append, List.mem_append]

/-- **An item is in the list** exactly if no item with its key was added before it. -/
theorem mem_addAll_iff {ys : List α} :
    x ∈ addAll key [] ys ↔ ∃ before after, ys = before ++ x :: after ∧ key x ∉ before.map key := by
  induction ys using List.reverseRecOn with
  | nil => simp
  | append_singleton ys y ih =>
      rw [addAll_concat, mem_addNew_iff, ih, mem_map_addAll_iff]
      constructor
      · rintro (⟨before, after, rfl, hfirst⟩ | ⟨rfl, hfirst⟩)
        · exact ⟨before, after ++ [y], by simp, hfirst⟩
        · exact ⟨ys, [], rfl, hfirst⟩
      · rintro ⟨before, after, hsplit, hfirst⟩
        -- The item is the last one, or stands before it.
        cases after using List.reverseRecOn with
        | nil =>
            obtain ⟨rfl, hlast⟩ := List.append_inj' hsplit rfl
            obtain rfl := List.singleton_inj.mp hlast
            exact .inr ⟨rfl, hfirst⟩
        | append_singleton after z =>
            rw [← List.cons_append, ← List.append_assoc] at hsplit
            obtain ⟨rfl, -⟩ := List.append_inj' hsplit rfl
            exact .inl ⟨before, after, rfl, hfirst⟩

/-- What is in the list was added. -/
theorem mem_of_mem_addAll {ys : List α} (h : x ∈ addAll key [] ys) : x ∈ ys := by
  obtain ⟨before, after, rfl, -⟩ := mem_addAll_iff.mp h
  exact List.mem_append_right _ List.mem_cons_self

/-- Keys in the list are distinct. -/
theorem nodup_map_addAll (key : α → κ) (ys : List α) : ((addAll key [] ys).map key).Nodup := by
  induction ys using List.reverseRecOn with
  | nil => exact List.nodup_nil
  | append_singleton ys y ih =>
      rw [addAll_concat]
      exact nodup_map_addNew ih

/-- **What is added to a list** are the items with new keys, without those that repeat a key. -/
theorem addAll_eq (key : α → κ) (xs ys : List α) :
    addAll key xs ys
      = xs ++ (ys.filter (key · ∉ xs.map key)).eraseDupsBy fun a b => key a = key b := by
  induction ys generalizing xs with
  | nil => simp
  | cons y rest ih =>
      rw [addAll, List.foldl_cons, ← addAll, ih, addNew]
      by_cases hknown : key y ∈ xs.map key
      · rw [if_pos hknown, List.filter_cons_of_neg (by simpa using hknown)]
      · -- From here on the key of the item is known as well.
        have hnew (z : α) : decide (key z ∉ (xs ++ [y]).map key)
            = (decide (decide (key z = key y) = false) && decide (key z ∉ xs.map key)) := by
          rw [Bool.eq_iff_iff, List.map_append]
          simp only [List.map_singleton, List.mem_append, List.mem_singleton, not_or,
            decide_eq_true_eq, Bool.and_eq_true, decide_eq_false_iff_not]
          exact and_comm
        rw [if_neg hknown, List.filter_cons_of_pos (by simpa using hknown), List.eraseDupsBy_cons,
          List.append_assoc, List.singleton_append, List.filter_filter]
        simp only [hnew]

/-- **Items added to nothing** are all items, without those that repeat a key. -/
theorem addAll_nil_eq_eraseDupsBy (key : α → κ) (ys : List α) :
    addAll key [] ys = ys.eraseDupsBy fun a b => key a = key b := by
  rw [addAll_eq, List.nil_append]
  simp

/-- Items whose keys are new go behind the others, whatever these are. -/
theorem addAll_of_not_mem {xs ys : List α} (h : ∀ y ∈ ys, key y ∉ xs.map key) :
    addAll key xs ys = xs ++ addAll key [] ys := by
  rw [addAll_eq, addAll_nil_eq_eraseDupsBy, List.filter_eq_self.mpr (by simpa using h)]

/-- An item that is made from another goes by the key it gets. -/
theorem addNew_map {β : Type} (key : α → κ) (f : β → α) (ys : List β) (y : β) :
    addNew key (ys.map f) (f y) = (addNew (fun y => key (f y)) ys y).map f := by
  rw [addNew, addNew, List.map_map]
  by_cases hknown : key (f y) ∈ ys.map fun y => key (f y)
  · rw [if_pos hknown]
    exact if_pos hknown
  · rw [if_neg hknown, List.map_append]
    exact if_neg hknown

/-- Items that are made from others go by the keys they get. -/
theorem addAll_map {β : Type} (key : α → κ) (f : β → α) (ys : List β) :
    addAll key [] (ys.map f) = (addAll (fun y => key (f y)) [] ys).map f := by
  induction ys using List.reverseRecOn with
  | nil => rfl
  | append_singleton ys y ih =>
      rw [List.map_append, List.map_singleton, addAll_concat, addAll_concat, ih, addNew_map]

end Keys

/-! ### What registrations bring -/

namespace Registration

/-- The unit that a registration uses. -/
def used? : Registration → Option UsedUnit
  | .use name path => some ⟨normalizeIdentifier name, path⟩
  | _ => none

/-- The declaration that a registration makes. -/
def declared? : Registration → Option Declaration
  | .declare d => some d.normalize
  | _ => none

/-- The routine that a registration adds, before anything is pushed onto it. -/
def routine? : Registration → Option Routine
  | .routine key parameters returnType body _ => some (.ofSource key parameters returnType body)
  | _ => none

/-- The main block that a registration sets. -/
def mainBlock? : Registration → Option (List Statement)
  | .mainBlock body => some body
  | _ => none

/-- Statements are pushed onto routines that are added. -/
theorem pushedTo_eq_nil {call : Registration} {key : Routine.Key}
    (h : ∀ r ∈ call.routine?, r.key ≠ key) : call.pushedTo key = [] := by
  cases call with
  | use name path => rfl
  | declare d => rfl
  | routine key' parameters returnType body pushed =>
      exact if_neg fun heq => h _ rfl heq.symm
  | mainBlock body => rfl

/-- Nothing is pushed onto a key under which nothing is added. -/
theorem flatMap_pushedTo_eq_nil {calls : List Registration} {key : Routine.Key}
    (h : key ∉ (calls.filterMap routine?).map Routine.key) :
    calls.flatMap (·.pushedTo key) = [] := by
  refine List.flatMap_eq_nil_iff.mpr fun call hcall => pushedTo_eq_nil fun r hr heq => h ?_
  exact List.mem_map.mpr ⟨r, List.mem_filterMap.mpr ⟨call, hcall, hr⟩, heq⟩

end Registration

namespace CompilationUnit

/-! ### The lists of a run -/

/-- What one registration does to the used units. -/
theorem usedUnits_register (u : CompilationUnit) (call : Registration) :
    (u.register call).usedUnits = addAll id u.usedUnits call.used?.toList := by
  cases call with
  | use name path => rw [register, addUse_eq]; rfl
  | declare d => rw [register, declare_eq]; rfl
  | routine key parameters returnType body pushed =>
      rw [register, pushAll_eq, addRoutine_eq]
      rfl
  | mainBlock body => rfl

/-- What one registration does to the declarations. -/
theorem types_register (u : CompilationUnit) (call : Registration) :
    (u.register call).types = addAll Declaration.key u.types call.declared?.toList := by
  cases call with
  | use name path => rw [register, addUse_eq]; rfl
  | declare d => rw [register, declare_eq]; rfl
  | routine key parameters returnType body pushed =>
      rw [register, pushAll_eq, addRoutine_eq]
      rfl
  | mainBlock body => rfl

/-- What one registration does to the routines. -/
theorem routines_register (u : CompilationUnit) (call : Registration) :
    (u.register call).routines =
      (addAll Routine.key u.routines call.routine?.toList).map fun r =>
        r.grow (call.pushedTo r.key) := by
  cases call with
  | use name path => rw [register, addUse_eq]; simp [Registration.routine?, Registration.pushedTo]
  | declare d => rw [register, declare_eq]; simp [Registration.routine?, Registration.pushedTo]
  | routine key parameters returnType body pushed =>
      rw [register, pushAll_eq, addRoutine_eq]
      rfl
  | mainBlock body => simp [register, setBody, Registration.routine?, Registration.pushedTo]

/-- **The used units of a run**: those it asks for, each once. -/
theorem usedUnits_registerAll (u : CompilationUnit) (calls : List Registration) :
    (u.registerAll calls).usedUnits
      = addAll id u.usedUnits (calls.filterMap Registration.used?) := by
  induction calls generalizing u with
  | nil => rfl
  | cons call rest ih =>
      rw [registerAll_cons, ih, usedUnits_register, List.filterMap_cons]
      cases call.used? <;> rfl

/-- **The declarations of a run**: those it makes, the first one of each key. -/
theorem types_registerAll (u : CompilationUnit) (calls : List Registration) :
    (u.registerAll calls).types
      = addAll Declaration.key u.types (calls.filterMap Registration.declared?) := by
  induction calls generalizing u with
  | nil => rfl
  | cons call rest ih =>
      rw [registerAll_cons, ih, types_register, List.filterMap_cons]
      cases call.declared? <;> rfl

/-- What one registration does to the main block. -/
theorem body_register (u : CompilationUnit) (call : Registration) :
    (u.register call).body = call.mainBlock?.or u.body := by
  cases call with
  | use name path => rw [register, addUse_eq]; rfl
  | declare d => rw [register, declare_eq]; rfl
  | routine key parameters returnType body pushed =>
      rw [register, pushAll_eq, addRoutine_eq]
      rfl
  | mainBlock body => rfl

/-- **The main block of a run**: the last one it sets. -/
theorem body_registerAll (u : CompilationUnit) (calls : List Registration) :
    (u.registerAll calls).body
      = (calls.filterMap Registration.mainBlock?).getLast?.or u.body := by
  induction calls generalizing u with
  | nil => rfl
  | cons call rest ih =>
      rw [registerAll_cons, ih, body_register, List.filterMap_cons]
      cases call.mainBlock? with
      | none => rfl
      | some body =>
          rw [List.getLast?_cons]
          cases (rest.filterMap Registration.mainBlock?).getLast? <;> rfl

/-- A routine can be added before or after the others grow, if nothing is pushed onto a new one. -/
theorem addNew_map_grow (pushed : Routine.Key → List Statement) {routines : List Routine}
    {r : Routine} (h : r.key ∉ routines.map Routine.key → pushed r.key = []) :
    addNew Routine.key (routines.map fun r => r.grow (pushed r.key)) r
      = (addNew Routine.key routines r).map fun r => r.grow (pushed r.key) := by
  have hkeys : (routines.map fun r => r.grow (pushed r.key)).map Routine.key
      = routines.map Routine.key := by
    rw [List.map_map]
    rfl
  rw [addNew, addNew, hkeys]
  split
  · rfl
  · next hnew => rw [List.map_append, List.map_singleton, h hnew, Routine.grow_nil]

/-- **The routines of a run**: those it adds, the first one of each key, grown by all that is pushed
onto their keys. -/
theorem routines_registerAll (kind : UnitKind) (name : String) (calls : List Registration) :
    ((empty kind name).registerAll calls).routines =
      (addAll Routine.key [] (calls.filterMap Registration.routine?)).map fun r =>
        r.grow (calls.flatMap (·.pushedTo r.key)) := by
  induction calls using List.reverseRecOn with
  | nil => rfl
  | append_singleton calls call ih =>
      rw [registerAll_append, registerAll_cons, registerAll_nil, routines_register, ih,
        List.filterMap_append]
      cases hcall : call.routine? with
      | none =>
          have hpushed (key : Routine.Key) : call.pushedTo key = [] :=
            Registration.pushedTo_eq_nil (by simp [hcall])
          simp [hcall, hpushed]
      | some r =>
          have hnone (hnew : r.key ∉ (addAll Routine.key []
              (calls.filterMap Registration.routine?)).map Routine.key) :
              calls.flatMap (·.pushedTo r.key) = [] :=
            Registration.flatMap_pushedTo_eq_nil (mt mem_map_addAll_iff.mpr hnew)
          have hgrow := addNew_map_grow (fun key => calls.flatMap (·.pushedTo key)) hnone
          have hlast : [call].filterMap Registration.routine? = [r] :=
            List.filterMap_cons_some hcall
          rw [hlast, addAll_concat, Option.toList_some, ← List.nil_append [r], addAll_concat,
            addAll_nil, hgrow, List.map_map]
          refine List.map_congr_left fun r' _ => ?_
          simp

end CompilationUnit

end DelphiUnits.Pascal

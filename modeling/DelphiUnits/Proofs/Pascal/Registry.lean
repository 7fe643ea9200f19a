import DelphiUnits.Pascal.CompilationUnit
import DelphiUnits.Proofs.Text.Identifier

/-!
# What a compilation unit has registered

A compilation unit is filled by **registrations**: a unit is used, something is declared, a routine
is added and statements are pushed onto it, or the main block is set. Used units, declarations and
routines go by different keys. In each of the three lists an item is added at the end, and not at
all if its key is there.

From this one rule follows what a maintainer relies on, whatever is registered in whatever order:
keys stay distinct, and what was registered once stays in its place as it is. The one thing that can
still change is the body of a routine, which grows at its end by the statements pushed onto it.

## Main results

* `CompilationUnit.addUse_eq`, `declare_eq`, `addRoutine_eq`: the three lists follow one rule;
* `WellRegistered.registerAll`: keys are distinct and names in normal form after every run;
* `Keeps.registerAll`: what a run leaves of what was there;
* `CompilationUnit.registries_of_run`: the two together, with what a known key does.
-/

namespace DelphiUnits.Pascal

open Source (Statement)
open Text (normalizeIdentifier)

/-! ### Lists without repeated keys -/

section Keys

variable {α κ : Type} [DecidableEq κ] {key : α → κ} {xs : List α} {x : α}

/-- **A list with an item at its end**, unless it has an item with the same key. -/
def addNew (key : α → κ) (xs : List α) (x : α) : List α :=
  if key x ∈ xs.map key then xs else xs ++ [x]

/-- What was in the list stays in its place. -/
theorem prefix_addNew (key : α → κ) (xs : List α) (x : α) : xs <+: addNew key xs x := by
  rw [addNew]
  split
  · exact List.prefix_rfl
  · exact List.prefix_append xs [x]

/-- An item is in the list if it was there, or is the new one. -/
theorem mem_of_mem_addNew {y : α} (h : y ∈ addNew key xs x) : y ∈ xs ∨ y = x := by
  rw [addNew] at h
  split at h
  · exact .inl h
  · exact (List.mem_append.mp h).imp_right List.mem_singleton.mp

/-- Nothing changes exactly if the key was there. -/
theorem addNew_eq_self_iff (key : α → κ) (xs : List α) (x : α) :
    addNew key xs x = xs ↔ key x ∈ xs.map key := by
  rw [addNew]
  split
  · next h => exact iff_of_true rfl h
  · next h => exact iff_of_false (by simp) h

/-- An item with a new key comes at the end. -/
theorem addNew_of_not_mem (h : key x ∉ xs.map key) : addNew key xs x = xs ++ [x] := if_neg h

/-- **Distinct keys stay distinct.** -/
theorem nodup_map_addNew (h : (xs.map key).Nodup) : ((addNew key xs x).map key).Nodup := by
  rw [addNew]
  split
  · exact h
  · next hnew =>
    rw [List.map_append, List.nodup_append]
    refine ⟨h, List.nodup_singleton _, fun k hk k' hk' => ?_⟩
    obtain rfl : k' = key x := List.mem_singleton.mp hk'
    exact fun heq => hnew (heq ▸ hk)

/-- Adding an item commutes with every change of items that leaves their keys alone. -/
theorem map_addNew {f : α → α} (h : ∀ x, key (f x) = key x) (xs : List α) (x : α) :
    (addNew key xs x).map f = addNew key (xs.map f) (f x) := by
  have hkeys : (xs.map f).map key = xs.map key := by
    rw [List.map_map]
    exact List.map_congr_left fun y _ => h y
  rw [addNew, addNew, hkeys, h]
  split
  · rfl
  · exact List.map_append

/-- Where keys are distinct, looking for the key of an item **finds that item**. -/
theorem find?_key (h : (xs.map key).Nodup) (hx : x ∈ xs) :
    xs.find? (fun y => key y == key x) = some x := by
  induction xs with
  | nil => cases hx
  | cons y ys ih =>
      obtain ⟨hy, hys⟩ := List.nodup_cons.mp h
      rcases List.mem_cons.mp hx with rfl | hx
      · rw [List.find?_cons, beq_self_eq_true]
      · have hne : (key y == key x) = false :=
          beq_false_of_ne fun heq => hy (heq ▸ List.mem_map_of_mem hx)
        rw [List.find?_cons, hne]
        exact ih hys hx

end Keys

/-! ### Routines that grow -/

/-- A routine with more statements at the end of its body. -/
def Routine.grow (r : Routine) (more : List Statement) : Routine :=
  { r with body := r.body ++ more }

@[simp] theorem Routine.grow_key (r : Routine) (more : List Statement) :
    (r.grow more).key = r.key := rfl

@[simp] theorem Routine.grow_nil (r : Routine) : r.grow [] = r := by
  rw [Routine.grow, List.append_nil]

@[simp] theorem Routine.grow_grow (r : Routine) (a b : List Statement) :
    (r.grow a).grow b = r.grow (a ++ b) := by
  simp only [Routine.grow, List.append_assoc]

/-! ### Registrations -/

/-- A **registration**: what fills a compilation unit, one call at a time. -/
inductive Registration where
  /-- Use a unit. -/
  | use (name : String) (path : Option String)
  /-- Declare. -/
  | declare (declaration : Declaration)
  /-- Add a routine, and push statements onto the one that is then under its key. -/
  | routine (key : Routine.Key) (parameters : List Source.Parameter) (returnType : Option String)
      (body pushed : List Statement)
  /-- Set the main block. -/
  | mainBlock (body : List Statement)

/-- What a registration pushes onto the routine under a key. -/
def Registration.pushedTo (key : Routine.Key) : Registration → List Statement
  | .routine key' _ _ _ pushed => if key = key' then pushed else []
  | _ => []

namespace CompilationUnit

/-- Add statements one after the other at the end of the routine under a key. -/
def pushAll (u : CompilationUnit) (key : Routine.Key) (pushed : List Statement) :
    CompilationUnit :=
  pushed.foldl (fun u s => u.pushStatement key s) u

/-- Make one registration. -/
def register (u : CompilationUnit) : Registration → CompilationUnit
  | .use name path => u.addUse name path
  | .declare d => u.declare d
  | .routine key parameters returnType body pushed =>
    (u.addRoutine (.ofSource key parameters returnType body)).pushAll key pushed
  | .mainBlock body => u.setBody body

/-- **Make registrations** one after the other. -/
def registerAll (u : CompilationUnit) (calls : List Registration) : CompilationUnit :=
  calls.foldl register u

@[simp] theorem registerAll_nil (u : CompilationUnit) : u.registerAll [] = u := rfl

@[simp] theorem registerAll_cons (u : CompilationUnit) (call : Registration)
    (calls : List Registration) :
    u.registerAll (call :: calls) = (u.register call).registerAll calls := rfl

@[simp] theorem registerAll_append (u : CompilationUnit) (a b : List Registration) :
    u.registerAll (a ++ b) = (u.registerAll a).registerAll b :=
  List.foldl_append

/-! ### One rule for three lists -/

/-- Used units go by their name and their path. -/
theorem addUse_eq (u : CompilationUnit) (name : String) (path : Option String) :
    u.addUse name path =
      { u with usedUnits := addNew id u.usedUnits ⟨normalizeIdentifier name, path⟩ } := by
  rw [addUse, addNew, List.map_id, id]
  split <;> rfl

/-- There is a declaration under a key exactly if the key is that of a declaration. -/
theorem hasType_iff {u : CompilationUnit} {key : Declaration.Key} :
    u.hasType key = true ↔ key ∈ u.types.map Declaration.key := by
  rw [hasType, List.any_eq_true, List.mem_map]
  simp only [beq_iff_eq]

/-- There is a routine under a key exactly if the key is that of a routine. -/
theorem routine?_isSome_iff {u : CompilationUnit} {key : Routine.Key} :
    (u.routine? key).isSome = true ↔ key ∈ u.routines.map Routine.key := by
  rw [routine?, List.find?_isSome, List.mem_map]
  simp only [beq_iff_eq]

/-- Declarations go by their key. -/
theorem declare_eq (u : CompilationUnit) (d : Declaration) :
    u.declare d = { u with types := addNew Declaration.key u.types d.normalize } := by
  rw [declare, addNew]
  simp only [hasType_iff]
  split <;> rfl

/-- Routines go by their key. -/
theorem addRoutine_eq (u : CompilationUnit) (r : Routine) :
    u.addRoutine r = { u with routines := addNew Routine.key u.routines r } := by
  rw [addRoutine, addNew]
  simp only [routine?_isSome_iff]
  split <;> rfl

/-- Pushing a statement grows the routines under the key, and no others. -/
theorem pushStatement_eq (u : CompilationUnit) (key : Routine.Key) (s : Statement) :
    u.pushStatement key s =
      { u with routines := u.routines.map fun r => r.grow (if r.key = key then [s] else []) } := by
  rw [pushStatement]
  congr 1
  refine List.map_congr_left fun r _ => ?_
  split
  · rfl
  · exact r.grow_nil.symm

/-- Pushing statements grows the routines under the key by all of them, and no others. -/
theorem pushAll_eq (u : CompilationUnit) (key : Routine.Key) (pushed : List Statement) :
    u.pushAll key pushed =
      { u with
        routines := u.routines.map fun r => r.grow (if r.key = key then pushed else []) } := by
  induction pushed generalizing u with
  | nil => simp [pushAll]
  | cons s rest ih =>
      rw [pushAll, List.foldl_cons, ← pushAll, ih, pushStatement_eq]
      congr 1
      rw [List.map_map]
      refine List.map_congr_left fun r _ => ?_
      by_cases hkey : r.key = key <;> simp [hkey]

end CompilationUnit

/-! ### What stays -/

/-- **What a unit keeps** while it becomes another: its kind and name, and everything registered in
its place, with each routine grown by what was pushed onto it. -/
structure Keeps (u v : CompilationUnit) (pushed : Routine.Key → List Statement) : Prop where
  /-- The kind stays. -/
  kind : v.kind = u.kind
  /-- The name stays. -/
  name : v.name = u.name
  /-- Used units stay. -/
  usedUnits : u.usedUnits <+: v.usedUnits
  /-- Declarations stay. -/
  types : u.types <+: v.types
  /-- Routines stay and grow. -/
  routines : (u.routines.map fun r => r.grow (pushed r.key)) <+: v.routines

namespace Keeps

variable {u v w : CompilationUnit} {p q : Routine.Key → List Statement}

/-- A unit keeps what it has if nothing happens. -/
protected theorem refl (u : CompilationUnit) : Keeps u u fun _ => [] where
  kind := rfl
  name := rfl
  usedUnits := List.prefix_rfl
  types := List.prefix_rfl
  routines := by simp

/-- What is kept twice is kept, and what is pushed adds up. -/
protected theorem trans (h : Keeps u v p) (h' : Keeps v w q) :
    Keeps u w fun key => p key ++ q key where
  kind := h'.kind.trans h.kind
  name := h'.name.trans h.name
  usedUnits := h.usedUnits.trans h'.usedUnits
  types := h.types.trans h'.types
  routines := by
    have hgrow : (u.routines.map fun r => r.grow (p r.key)).map (fun r => r.grow (q r.key)) =
        u.routines.map fun r => r.grow (p r.key ++ q r.key) := by
      simp only [List.map_map, Function.comp_def, Routine.grow_key, Routine.grow_grow]
    rw [← hgrow]
    exact (h.routines.map _).trans h'.routines

/-- Using a unit keeps everything. -/
theorem addUse (u : CompilationUnit) (name : String) (path : Option String) :
    Keeps u (u.addUse name path) fun _ => [] := by
  rw [CompilationUnit.addUse_eq]
  exact { Keeps.refl u with usedUnits := prefix_addNew id u.usedUnits _ }

/-- Declaring keeps everything. -/
theorem declare (u : CompilationUnit) (d : Declaration) :
    Keeps u (u.declare d) fun _ => [] := by
  rw [CompilationUnit.declare_eq]
  exact { Keeps.refl u with types := prefix_addNew Declaration.key u.types _ }

/-- Adding a routine keeps everything. -/
theorem addRoutine (u : CompilationUnit) (r : Routine) :
    Keeps u (u.addRoutine r) fun _ => [] := by
  rw [CompilationUnit.addRoutine_eq]
  refine { Keeps.refl u with routines := ?_ }
  simpa using prefix_addNew Routine.key u.routines r

/-- Pushing statements keeps everything, and the routine under the key grows by them. -/
theorem pushAll (u : CompilationUnit) (key : Routine.Key) (pushed : List Statement) :
    Keeps u (u.pushAll key pushed) fun k => if k = key then pushed else [] := by
  induction pushed generalizing u with
  | nil =>
      simp only [ite_self]
      exact Keeps.refl u
  | cons s rest ih =>
      have hfirst : Keeps u (u.pushStatement key s) fun k => if k = key then [s] else [] := by
        rw [CompilationUnit.pushStatement_eq]
        exact { Keeps.refl u with routines := List.prefix_rfl }
      have hboth := hfirst.trans (ih (u.pushStatement key s))
      have hpushed : (fun k => (if k = key then [s] else []) ++ if k = key then rest else []) =
          fun k => if k = key then s :: rest else [] := by
        funext k
        split <;> rfl
      rw [hpushed] at hboth
      exact hboth

/-- **A registration keeps everything**, and pushes what it says. -/
theorem register (u : CompilationUnit) (call : Registration) :
    Keeps u (u.register call) fun key => call.pushedTo key := by
  cases call with
  | use name path => exact addUse u name path
  | declare d => exact declare u d
  | routine key parameters returnType body pushed =>
      exact (addRoutine u (.ofSource key parameters returnType body)).trans (pushAll _ key pushed)
  | mainBlock body => exact { Keeps.refl u with }

/-- **A run keeps everything**, and pushes what its registrations push, one after the other. -/
theorem registerAll (u : CompilationUnit) (calls : List Registration) :
    Keeps u (u.registerAll calls) fun key => calls.flatMap (·.pushedTo key) := by
  induction calls generalizing u with
  | nil => exact Keeps.refl u
  | cons call rest ih => exact (register u call).trans (ih (u.register call))

end Keeps

/-! ### What is true of every run -/

/-- A unit is **well registered** if the keys in each of its lists are distinct and names that are
put in normal form are in normal form. -/
structure WellRegistered (u : CompilationUnit) : Prop where
  /-- No two used units have the same name and path. -/
  usedUnits : u.usedUnits.Nodup
  /-- Used units have names in normal form. -/
  usedNames : ∀ used ∈ u.usedUnits, normalizeIdentifier used.name = used.name
  /-- No two declarations have the same key. -/
  types : (u.types.map Declaration.key).Nodup
  /-- Declarations have names in normal form. -/
  typeNames : ∀ d ∈ u.types, normalizeIdentifier d.name = d.name
  /-- No two routines have the same key. -/
  routines : (u.routines.map Routine.key).Nodup

namespace WellRegistered

variable {u : CompilationUnit}

/-- A unit with nothing in it is well registered. -/
protected theorem empty (kind : UnitKind) (name : String) :
    WellRegistered (.empty kind name) where
  usedUnits := List.nodup_nil
  usedNames _ h := absurd h List.not_mem_nil
  types := List.nodup_nil
  typeNames _ h := absurd h List.not_mem_nil
  routines := List.nodup_nil

/-- Using a unit leaves a unit well registered. -/
theorem addUse (h : WellRegistered u) (name : String) (path : Option String) :
    WellRegistered (u.addUse name path) := by
  rw [CompilationUnit.addUse_eq]
  refine { h with usedUnits := ?_, usedNames := fun used hused => ?_ }
  · have hnodup : (u.usedUnits.map id).Nodup := by
      rw [List.map_id]
      exact h.usedUnits
    simpa using nodup_map_addNew (x := ⟨normalizeIdentifier name, path⟩) hnodup
  · rcases mem_of_mem_addNew hused with hbefore | rfl
    · exact h.usedNames used hbefore
    · exact Text.normalizeIdentifier_normalizeIdentifier name

/-- Declaring leaves a unit well registered. -/
theorem declare (h : WellRegistered u) (d : Declaration) : WellRegistered (u.declare d) := by
  rw [CompilationUnit.declare_eq]
  refine { h with types := nodup_map_addNew h.types, typeNames := fun t ht => ?_ }
  rcases mem_of_mem_addNew ht with hbefore | rfl
  · exact h.typeNames t hbefore
  · exact Text.normalizeIdentifier_normalizeIdentifier d.name

/-- Adding a routine leaves a unit well registered. -/
theorem addRoutine (h : WellRegistered u) (r : Routine) : WellRegistered (u.addRoutine r) := by
  rw [CompilationUnit.addRoutine_eq]
  exact { h with routines := nodup_map_addNew h.routines }

/-- Pushing statements leaves a unit well registered, since routines keep their keys. -/
theorem pushAll (h : WellRegistered u) (key : Routine.Key) (pushed : List Statement) :
    WellRegistered (u.pushAll key pushed) := by
  induction pushed generalizing u with
  | nil => exact h
  | cons s rest ih =>
      refine ih (u := u.pushStatement key s) ?_
      rw [CompilationUnit.pushStatement_eq]
      refine { h with routines := ?_ }
      rw [List.map_map]
      exact h.routines

/-- **A registration leaves a unit well registered.** -/
theorem register (h : WellRegistered u) (call : Registration) :
    WellRegistered (u.register call) := by
  cases call with
  | use name path => exact h.addUse name path
  | declare d => exact h.declare d
  | routine key parameters returnType body pushed => exact (h.addRoutine _).pushAll key pushed
  | mainBlock body => exact { h with }

/-- **A run leaves a unit well registered.** -/
theorem registerAll (h : WellRegistered u) (calls : List Registration) :
    WellRegistered (u.registerAll calls) := by
  induction calls generalizing u with
  | nil => exact h
  | cons call rest ih => exact ih (h.register call)

end WellRegistered

namespace CompilationUnit

/-! ### Known keys -/

/-- Using a unit changes nothing exactly if it is used already. -/
theorem addUse_eq_self_iff {u : CompilationUnit} {name : String} {path : Option String} :
    u.addUse name path = u ↔ ⟨normalizeIdentifier name, path⟩ ∈ u.usedUnits := by
  have hsame := addNew_eq_self_iff id u.usedUnits ⟨normalizeIdentifier name, path⟩
  rw [List.map_id, id] at hsame
  rw [addUse_eq, ← hsame]
  exact ⟨fun h => congrArg CompilationUnit.usedUnits h, fun h => by rw [h]⟩

/-- Declaring changes nothing exactly if its key is there. -/
theorem declare_eq_self_iff {u : CompilationUnit} {d : Declaration} :
    u.declare d = u ↔ d.normalize.key ∈ u.types.map Declaration.key := by
  rw [declare_eq, ← addNew_eq_self_iff]
  exact ⟨fun h => congrArg CompilationUnit.types h, fun h => by rw [h]⟩

/-- Adding a routine changes nothing exactly if its key is there. -/
theorem addRoutine_eq_self_iff {u : CompilationUnit} {r : Routine} :
    u.addRoutine r = u ↔ r.key ∈ u.routines.map Routine.key := by
  rw [addRoutine_eq, ← addNew_eq_self_iff]
  exact ⟨fun h => congrArg CompilationUnit.routines h, fun h => by rw [h]⟩

/-- The answer to a declaration is no exactly if its key is there. -/
theorem isNew_eq_false_iff {u : CompilationUnit} {d : Declaration} :
    u.isNew d = false ↔ d.normalize.key ∈ u.types.map Declaration.key := by
  rw [isNew, Bool.not_eq_false', hasType_iff]

/-- **The registries of a run**, whatever is registered in whatever order. The unit is well
registered and has the kind and name it started with, and looking for the key of a declaration or
routine finds just that. Whatever is registered from then on, everything stays in its place as it
is, except that routines grow by what is pushed onto them. A registration leaves the unit as it is
exactly if its key is known, with anything else in it, and the answer to a declaration says so;
with a new key it adds its item at the end. -/
theorem registries_of_run (kind : UnitKind) (name : String) (calls more : List Registration) :
    let u := (CompilationUnit.empty kind name).registerAll calls
    WellRegistered u ∧ u.kind = kind ∧ u.name = name ∧
    (∀ d ∈ u.types, u.types.find? (·.key == d.key) = some d) ∧
    (∀ r ∈ u.routines, u.routine? r.key = some r) ∧
    (Keeps u (u.registerAll more) fun key => more.flatMap (·.pushedTo key)) ∧
    (∀ name path, (u.addUse name path = u ↔ ⟨normalizeIdentifier name, path⟩ ∈ u.usedUnits) ∧
      (⟨normalizeIdentifier name, path⟩ ∉ u.usedUnits →
        (u.addUse name path).usedUnits = u.usedUnits ++ [⟨normalizeIdentifier name, path⟩])) ∧
    (∀ d, (u.declare d = u ↔ d.normalize.key ∈ u.types.map Declaration.key) ∧
      (u.isNew d = false ↔ d.normalize.key ∈ u.types.map Declaration.key) ∧
      (u.isNew d = true → (u.declare d).types = u.types ++ [d.normalize])) ∧
    (∀ key parameters returnType body,
      let r := Routine.ofSource key parameters returnType body
      (u.addRoutine r = u ↔ key ∈ u.routines.map Routine.key) ∧
      (key ∉ u.routines.map Routine.key → (u.addRoutine r).routines = u.routines ++ [r])) := by
  intro u
  have hwell : WellRegistered u := (WellRegistered.empty kind name).registerAll calls
  have hstart := Keeps.registerAll (CompilationUnit.empty kind name) calls
  refine ⟨hwell, hstart.kind, hstart.name, fun d hd => find?_key hwell.types hd,
    fun r hr => find?_key hwell.routines hr, Keeps.registerAll u more, ?_, ?_, ?_⟩
  · intro name path
    refine ⟨addUse_eq_self_iff, fun hnew => ?_⟩
    rw [addUse_eq]
    refine addNew_of_not_mem ?_
    rwa [List.map_id]
  · intro d
    refine ⟨declare_eq_self_iff, isNew_eq_false_iff, fun hnew => ?_⟩
    rw [declare_eq]
    refine addNew_of_not_mem fun hknown => ?_
    rw [isNew_eq_false_iff.mpr hknown] at hnew
    cases hnew
  · intro key parameters returnType body r
    refine ⟨addRoutine_eq_self_iff, fun hnew => ?_⟩
    rw [addRoutine_eq]
    exact addNew_of_not_mem hnew

end CompilationUnit

end DelphiUnits.Pascal

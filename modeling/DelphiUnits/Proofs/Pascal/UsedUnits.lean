import DelphiUnits.Proofs.Pascal.Registered

/-!
# The units of a `uses` clause

Used units are told apart by name and path, but a reader of the generated file sees one text for
each: `Name`, or `Name in '<path>'`. Names and paths are arbitrary texts and may have quotes or
` in '` in them, so that two different units could well be written alike.

They never are. What is written between a name and its path starts with a blank and a small letter.
In a name in normal form no small letter follows a blank, so a name cannot reach into that mark.
Hence telling used units apart by what they are is the same as telling them apart by what is
written.

## Main results

* `UsedUnit.display_injective`: units under names in normal form are not written alike;
* `CompilationUnit.display_usedUnits_of_run`: a `uses` clause is what was asked for, each text once.
-/

namespace DelphiUnits.Pascal

open Text (normalizeIdentifier)

namespace UsedUnit

/-! ### The mark behind a name -/

/-- **A name and what follows its mark** can be told from the text they make up. -/
theorem append_mark_inj {n m : String} {s t : List Char} (hn : normalizeIdentifier n = n)
    (hm : normalizeIdentifier m = m)
    (h : n.toList ++ ' ' :: 'i' :: s = m.toList ++ ' ' :: 'i' :: t) : n = m ∧ s = t := by
  have htexts : n.toList ++ ([' '] ++ 'i' :: s) = m.toList ++ ([' '] ++ 'i' :: t) := h
  obtain ⟨hname, hrest⟩ := Text.append_separator_inj hn hm (by decide) (by decide) (by decide)
    (by decide) htexts
  exact ⟨hname, (List.cons.inj hrest).2⟩

/-- A name in normal form has no mark in it. -/
theorem toList_ne_append_mark {n : String} {xs ys : List Char} (hn : normalizeIdentifier n = n) :
    n.toList ≠ xs ++ ' ' :: 'i' :: ys := by
  intro htext
  have hupper := Text.toUpper_eq_self_of_separator hn htext (by decide)
  exact absurd hupper (by decide)

/-! ### Used units as they are written -/

/-- How a unit of the project is written: its name, the mark, and its path in quotes. -/
theorem toList_display_some (name path : String) :
    (display ⟨name, some path⟩).toList
      = name.toList ++ ' ' :: 'i' :: ("n '".toList ++ path.toList ++ "'".toList) := by
  have hmark : " in '".toList = ' ' :: 'i' :: "n '".toList := by decide
  rw [display, String.toList_append, String.toList_append, String.toList_append, hmark]
  simp only [List.append_assoc, List.cons_append]

/-- **Used units under names in normal form are not written alike.** -/
theorem display_injective {a b : UsedUnit} (ha : normalizeIdentifier a.name = a.name)
    (hb : normalizeIdentifier b.name = b.name) (h : a.display = b.display) : a = b := by
  obtain ⟨n, p⟩ := a
  obtain ⟨m, q⟩ := b
  have htext := congrArg String.toList h
  cases p with
  | none =>
      cases q with
      | none => exact congrArg (UsedUnit.mk · none) h
      | some q =>
          rw [toList_display_some] at htext
          exact absurd htext (toList_ne_append_mark ha)
  | some p =>
      cases q with
      | none =>
          rw [toList_display_some] at htext
          exact absurd htext.symm (toList_ne_append_mark hb)
      | some q =>
          rw [toList_display_some, toList_display_some] at htext
          obtain ⟨rfl, hpath⟩ := append_mark_inj ha hb htext
          have hpath' := List.append_cancel_left (List.append_cancel_right hpath)
          rw [String.toList_inj.mp hpath']

end UsedUnit

/-! ### Runs -/

/-- A used unit has a name in normal form. -/
theorem Registration.used?_name {call : Registration} {used : UsedUnit}
    (h : call.used? = some used) : normalizeIdentifier used.name = used.name := by
  cases call with
  | use name path =>
      obtain rfl := Option.some.inj h
      exact Text.normalizeIdentifier_normalizeIdentifier name
  | declare d => cases h
  | routine key parameters returnType body pushed => cases h
  | mainBlock body => cases h

namespace CompilationUnit

/-- One more text at the end counts unless it was there before. -/
theorem eraseDups_concat (texts : List String) (text : String) :
    (texts ++ [text]).eraseDups
      = if text ∈ texts then texts.eraseDups else texts.eraseDups ++ [text] := by
  rw [List.eraseDups_append, List.removeAll]
  split
  · next h => simp [h]
  · next h => simp [h, List.eraseDups_cons]

/-- **Adding units and writing them** is writing them and leaving out what was written before. -/
theorem map_display_addAll {units : List UsedUnit}
    (hunits : ∀ used ∈ units, normalizeIdentifier used.name = used.name) :
    (addAll id [] units).map UsedUnit.display = (units.map UsedUnit.display).eraseDups := by
  induction units using List.reverseRecOn with
  | nil => simp
  | append_singleton units used ih =>
      have hbefore : ∀ other ∈ units, normalizeIdentifier other.name = other.name :=
        fun other hother => hunits other (List.mem_append_left _ hother)
      have hused := hunits used (List.mem_append_right _ List.mem_cons_self)
      have hknown : used.display ∈ units.map UsedUnit.display ↔
          id used ∈ (addAll id [] units).map id := by
        rw [mem_map_addAll_iff, List.map_id, id]
        constructor
        · intro hmem
          obtain ⟨other, hother, hsame⟩ := List.mem_map.mp hmem
          exact UsedUnit.display_injective (hbefore other hother) hused hsame ▸ hother
        · exact fun hmem => List.mem_map_of_mem hmem
      rw [addAll_concat, List.map_append, List.map_singleton, eraseDups_concat, ← ih hbefore, addNew]
      by_cases hmem : id used ∈ (addAll id [] units).map id
      · rw [if_pos hmem, if_pos (hknown.mpr hmem)]
      · rw [if_neg hmem, if_neg (mt hknown.mp hmem), List.map_append, List.map_singleton]

/-- **A `uses` clause has each text once**, at the place where it came first: in every run of
registrations from an empty unit, the used units as they are written are the texts that were asked
for, without those that were there before. Used units are told apart by what they are, which comes
to the same, since no two units under names in normal form are written alike. -/
theorem display_usedUnits_of_run (kind : UnitKind) (name : String) (calls : List Registration) :
    ((empty kind name).registerAll calls).usedUnits.map UsedUnit.display
        = ((calls.filterMap Registration.used?).map UsedUnit.display).eraseDups ∧
      ∀ (n m : String) (p q : Option String),
        UsedUnit.display ⟨normalizeIdentifier n, p⟩ = UsedUnit.display ⟨normalizeIdentifier m, q⟩ ↔
          normalizeIdentifier n = normalizeIdentifier m ∧ p = q := by
  constructor
  · rw [usedUnits_registerAll]
    refine map_display_addAll fun used hused => ?_
    obtain ⟨call, -, hcall⟩ := List.mem_filterMap.mp hused
    exact call.used?_name hcall
  · intro n m p q
    constructor
    · intro h
      have hn := Text.normalizeIdentifier_normalizeIdentifier n
      have hm := Text.normalizeIdentifier_normalizeIdentifier m
      exact UsedUnit.mk.inj (UsedUnit.display_injective (a := ⟨_, p⟩) (b := ⟨_, q⟩) hn hm h)
    · rintro ⟨hname, rfl⟩
      rw [hname]

end CompilationUnit

end DelphiUnits.Pascal

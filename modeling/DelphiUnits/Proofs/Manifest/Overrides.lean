import Mathlib.Data.List.Induction
import DelphiUnits.Proofs.Manifest.Validation

/-!
# Overriding values of a manifest

Overrides replace values of a manifest that is being changed, one value after the other, and one of
them may be refused. It is the first one that is looked at, so nothing has been replaced by then:
overrides are applied as a whole or not at all.

Overrides that are applied in turn therefore leave, in each place, the value that was set last by
one that was not refused. They never touch the rules of a manifest, and a main file that they set is
a source file, so an accepted manifest stays one that would be accepted.

## Main results

* `override_cases`: overrides are applied as a whole, or refused and without effect;
* `lastSet_overrideAll`: the value set last is the one that is left;
* `overrides_of_parse`: what overrides leave of an accepted manifest.
-/

namespace DelphiUnits.Manifest

variable {m : Manifest} {o : Overrides}

/-! ### One override -/

/-- The locations with those that are given in the place of others. -/
def Locations.replaced (l : Locations) (o : Overrides) : Locations :=
  ⟨o.input.getD l.input, o.output.getD l.output, o.main.or l.main⟩

/-- **Overrides without a bad main file** replace all that is given. -/
theorem override_of_isAllowedMain (h : IsAllowedMain o.main) :
    m.override o = (.ok (), { m with locations := m.locations.replaced o }) := by
  obtain ⟨input, output, _ | main⟩ := o
  · rcases input with _ | input <;> rcases output with _ | output <;> rfl
  · have hmain : replaceMain main = modify fun m =>
        { m with locations := { m.locations with main := some main } } := by
      rw [replaceMain, isSourceFile_iff.mpr (h main rfl)]
      rfl
    simp only [override, Overrides.apply, Option.forM, hmain]
    rcases input with _ | input <;> rcases output with _ | output <;> rfl

/-- **Overrides with a bad main file** replace nothing. -/
theorem override_of_not_isSourceName {main : String} (hmain : o.main = some main)
    (hnot : ¬IsSourceName main) : m.override o = (.error (.badOverride main), m) := by
  have hrefused : replaceMain main = throw (.badOverride main) := by
    rw [replaceMain, Bool.eq_false_iff.mpr (mt isSourceFile_iff.mp hnot)]
    rfl
  simp only [override, Overrides.apply, hmain, Option.forM, hrefused]
  rfl

/-- **Overrides are applied as a whole or not at all.** -/
theorem override_cases (m : Manifest) (o : Overrides) :
    IsAllowedMain o.main ∧
        m.override o = (.ok (), { m with locations := m.locations.replaced o }) ∨
      ∃ main, o.main = some main ∧ ¬IsSourceName main ∧
        m.override o = (.error (.badOverride main), m) := by
  by_cases hallowed : IsAllowedMain o.main
  · exact .inl ⟨hallowed, override_of_isAllowedMain hallowed⟩
  · obtain ⟨main, hmain, hnot⟩ : ∃ main, o.main = some main ∧ ¬IsSourceName main := by
      simpa [IsAllowedMain] using hallowed
    exact .inr ⟨main, hmain, hnot, override_of_not_isSourceName hmain hnot⟩

/-- When overrides fail, and with which error. -/
theorem override_fst_eq_error_iff {e : Error} :
    (m.override o).1 = .error e ↔
      ∃ main, o.main = some main ∧ ¬IsSourceName main ∧ e = .badOverride main := by
  rcases override_cases m o with ⟨hallowed, h⟩ | ⟨main, hmain, hnot, h⟩ <;> rw [h]
  · simp only [reduceCtorEq, false_iff]
    rintro ⟨main, hmain, hnot, -⟩
    exact hnot (hallowed main hmain)
  · constructor
    · intro herror
      exact ⟨main, hmain, hnot, (Except.error.inj herror).symm⟩
    · rintro ⟨main', hmain', -, rfl⟩
      obtain rfl : main = main' := Option.some.inj (hmain.symm.trans hmain')
      rfl

/-- Overrides keep the rules of a manifest. -/
theorem rules_override (m : Manifest) (o : Overrides) : (m.override o).2.rules = m.rules := by
  rcases override_cases m o with ⟨-, h⟩ | ⟨main, -, -, h⟩ <;> rw [h]

/-- **A manifest that follows the rules** does so after overrides. -/
theorem IsValid.override (h : IsValid m) (o : Overrides) : IsValid (m.override o).2 := by
  rcases override_cases m o with ⟨hallowed, hm⟩ | ⟨main, -, -, hm⟩ <;> rw [hm]
  · refine ⟨fun name hname => ?_, h.indent, h.prefixes, h.words⟩
    rcases Option.or_eq_some_iff.mp hname with hset | ⟨-, hkept⟩
    · exact hallowed name hset
    · exact h.main name hkept
  · exact h

/-! ### Overrides in turn -/

/-- A manifest after overrides that are applied in turn. -/
def overrideAll (m : Manifest) (overrides : List Overrides) : Manifest :=
  overrides.foldl (fun m o => (m.override o).2) m

/-- The last of several overrides is applied to what the others leave. -/
theorem overrideAll_concat (m : Manifest) (overrides : List Overrides) (o : Overrides) :
    m.overrideAll (overrides ++ [o]) = ((m.overrideAll overrides).override o).2 := by
  rw [overrideAll, List.foldl_append]
  rfl

/-- Overrides in turn keep the rules of a manifest. -/
theorem rules_overrideAll (m : Manifest) (overrides : List Overrides) :
    (m.overrideAll overrides).rules = m.rules := by
  induction overrides using List.reverseRecOn with
  | nil => rfl
  | append_singleton overrides o ih => rw [overrideAll_concat, rules_override, ih]

/-- A manifest that follows the rules does so after overrides in turn. -/
theorem IsValid.overrideAll (h : IsValid m) (overrides : List Overrides) :
    IsValid (m.overrideAll overrides) := by
  induction overrides using List.reverseRecOn with
  | nil => exact h
  | append_singleton overrides o ih =>
      rw [overrideAll_concat]
      exact ih.override o

/-- The value that is **set last** in a place by overrides that are not refused, or the original one
if none sets it. -/
def LastSet {α : Type} (given : Overrides → Option α) (original : α) (overrides : List Overrides)
    (value : α) : Prop :=
  (∃ before o after, overrides = before ++ o :: after ∧ IsAllowedMain o.main ∧
    given o = some value ∧ ∀ o' ∈ after, IsAllowedMain o'.main → given o' = none) ∨
  (∀ o ∈ overrides, IsAllowedMain o.main → given o = none) ∧ value = original

/-- Overrides that are refused or do not set a value leave it. -/
theorem LastSet.skip {α : Type} {given : Overrides → Option α} {original value : α}
    {overrides : List Overrides} (h : LastSet given original overrides value)
    (ho : IsAllowedMain o.main → given o = none) :
    LastSet given original (overrides ++ [o]) value := by
  rcases h with ⟨before, o', after, rfl, hallowed, hgiven, hafter⟩ | ⟨hnone, rfl⟩
  · refine .inl ⟨before, o', after ++ [o], by simp, hallowed, hgiven, ?_⟩
    exact List.forall_mem_append.mpr ⟨hafter, List.forall_mem_singleton.mpr ho⟩
  · exact .inr ⟨List.forall_mem_append.mpr ⟨hnone, List.forall_mem_singleton.mpr ho⟩, rfl⟩

/-- **The value set last is the one that is left**, in any place where overrides put what is
given. -/
theorem lastSet_overrideAll {α : Type} (place : Locations → α) (given : Overrides → Option α)
    (hplace : ∀ (l : Locations) (o : Overrides), place (l.replaced o) = (given o).getD (place l))
    (m : Manifest) (overrides : List Overrides) :
    LastSet given (place m.locations) overrides (place (m.overrideAll overrides).locations) := by
  induction overrides using List.reverseRecOn with
  | nil => exact .inr ⟨List.forall_mem_nil _, rfl⟩
  | append_singleton overrides o ih =>
      rw [overrideAll_concat]
      rcases override_cases (m.overrideAll overrides) o with
        ⟨hallowed, h⟩ | ⟨main, hmain, hnot, h⟩ <;> rw [h]
      · change LastSet _ _ _ (place ((m.overrideAll overrides).locations.replaced o))
        rw [hplace]
        rcases hgiven : given o with _ | value
        · exact ih.skip fun _ => hgiven
        · exact .inl ⟨overrides, o, [], rfl, hallowed, hgiven, List.forall_mem_nil _⟩
      · exact ih.skip fun hallowed => absurd (hallowed main hmain) hnot

/-- **What overrides leave of an accepted manifest.** Each of them fails exactly if it gives a main
file that is no source file, and then leaves the manifest as it was. In the end each location is
the one that was set last by overrides that did not fail, or the one it was. After every step the
manifest has its rules still, and would be accepted. -/
theorem overrides_of_parse {content : String} {m : Manifest} (h : parse content = .ok m)
    (overrides : List Overrides) :
    (∀ before o after, overrides = before ++ o :: after →
      m.overrideAll (before ++ [o]) = ((m.overrideAll before).override o).2 ∧
      ∀ e, (((m.overrideAll before).override o).1 = .error e ↔
          ∃ main, o.main = some main ∧ ¬IsSourceName main ∧ e = .badOverride main) ∧
        (((m.overrideAll before).override o).1 = .error e →
          m.overrideAll (before ++ [o]) = m.overrideAll before)) ∧
    LastSet (·.input) m.locations.input overrides (m.overrideAll overrides).locations.input ∧
    LastSet (·.output) m.locations.output overrides (m.overrideAll overrides).locations.output ∧
    LastSet (·.main.map some) m.locations.main overrides (m.overrideAll overrides).locations.main ∧
    ∀ before, before <+: overrides →
      (m.overrideAll before).rules = m.rules ∧ IsValid (m.overrideAll before) := by
  have hvalid := (isValid_of_parse h).2
  refine ⟨fun before o after _ => ⟨overrideAll_concat m before o, fun e =>
      ⟨override_fst_eq_error_iff, fun herror => ?_⟩⟩,
    lastSet_overrideAll Locations.input _ (fun _ _ => rfl) m overrides,
    lastSet_overrideAll Locations.output _ (fun _ _ => rfl) m overrides,
    lastSet_overrideAll Locations.main _ (fun l o => ?_) m overrides,
    fun before _ => ⟨rules_overrideAll m before, hvalid.overrideAll before⟩⟩
  · obtain ⟨main, hmain, hnot, -⟩ := override_fst_eq_error_iff.mp herror
    rw [overrideAll_concat, override_of_not_isSourceName hmain hnot]
  · obtain ⟨input, output, _ | main⟩ := o <;> rfl

/-- Overrides two of which are refused, the last one among them. -/
def mixedOverrides : List Overrides :=
  [⟨some ⟨"a"⟩, none, some "Main"⟩, ⟨some ⟨"lib"⟩, none, none⟩,
    ⟨none, some ⟨"pas"⟩, some "Main.ts"⟩, ⟨some ⟨"b"⟩, some ⟨"c"⟩, some ".TS"⟩]

/-- Of overrides that are refused nothing is left. -/
theorem overrides_of_carefulText :
    parse carefulText = .ok carefulManifest ∧
      (carefulManifest.overrideAll mixedOverrides).locations
        = ⟨⟨"lib"⟩, ⟨"pas"⟩, some "Main.ts"⟩ ∧
      LastSet (·.input) ⟨"src"⟩ mixedOverrides ⟨"lib"⟩ ∧
      IsValid (carefulManifest.overrideAll mixedOverrides) := by
  have haccepted : parse carefulText = .ok carefulManifest := by
    rw [parse_of_decode? decode?_carefulText,
      (validate_eq_ok_iff _ _).mpr isValid_carefulManifest]
    rfl
  obtain ⟨-, hinput, -, -, hsteps⟩ := overrides_of_parse haccepted mixedOverrides
  have hlocations : (carefulManifest.overrideAll mixedOverrides).locations
      = ⟨⟨"lib"⟩, ⟨"pas"⟩, some "Main.ts"⟩ := by decide
  rw [hlocations] at hinput
  exact ⟨haccepted, hlocations, hinput, (hsteps _ List.prefix_rfl).2⟩

end DelphiUnits.Manifest

import Mathlib.Data.List.Basic
import DelphiUnits.Proofs.Pascal.Import

/-!
# Imports resolved by cancelling

Following an import is a walk with a stack of names. Where it ends can be said without the walk, by
**cancelling**: leave out every `.`, take away a name together with the `..` right behind it, and go
on until only names are left. What is left does not depend on the order in which this is done, since
it is what the walk ends with.

Cancelling gets stuck exactly if some first few steps have more `..` than names. Where it does not,
as many names are left as there are more of them than of `..`. So whether an import is resolved is a
matter of counting.

A piece of an import that cancels to nothing is a **detour**: a second slash, `.`, or a name and
`..`. Detours may be put anywhere in a relative import.

## Main results

* `cancels_iff`: the walk ends with what is left after cancelling;
* `not_leadsBelow_iff`: counting says which imports lead nowhere;
* `stripped_iff`: which name is left without its extension;
* `resolveImport?_by_cancelling`: when an import is resolved, to what, and that detours do not
  matter.
-/

namespace DelphiUnits.Pascal

open DelphiUnits.Path (Component Segment IsName component? joinSlash splitSlash)

/-! ### Cancelling -/

/-- **What is left of steps after cancelling**: names only, when `.` is left out and every `..` is
taken away together with the name right before it. -/
inductive Cancels : List Component → List String → Prop
  /-- Names are left as they are. -/
  | names (place : List String) : Cancels (place.map .name) place
  /-- The current directory is left out. -/
  | current {front back : List Component} {place : List String} :
      Cancels (front ++ back) place → Cancels (front ++ .current :: back) place
  /-- A name goes with the `..` behind it. -/
  | parent {front back : List Component} {place : List String} (n : String) :
      Cancels (front ++ back) place → Cancels (front ++ .name n :: .parent :: back) place

/-- Steps are followed one part after the other. -/
theorem followAll_append (names : List String) (front back : List Component) :
    followAll names (front ++ back) = (followAll names front).bind (followAll · back) := by
  induction front generalizing names with
  | nil => rfl
  | cons c rest ih =>
      rw [List.cons_append, followAll, followAll, Option.bind_assoc]
      congr 1
      funext names'
      exact ih names'

/-- Steps that lead back to where they start from, wherever that is, may be left out. -/
theorem followAll_leave_out {steps : List Component}
    (hback : ∀ names, followAll names steps = some names) (names : List String)
    (front back : List Component) :
    followAll names (front ++ (steps ++ back)) = followAll names (front ++ back) := by
  rw [followAll_append, followAll_append names front back]
  congr 1
  funext names'
  rw [followAll_append, hback, Option.bind_some]

/-- From a place on, what is left of its names and the steps behind them is where these lead to. -/
theorem cancels_of_followAll {names place : List String} {steps : List Component}
    (h : followAll names steps = some place) :
    Cancels (names.reverse.map .name ++ steps) place.reverse := by
  induction steps generalizing names with
  | nil =>
      obtain rfl : names = place := Option.some.inj h
      rw [List.append_nil]
      exact .names names.reverse
  | cons c rest ih =>
      obtain ⟨names', hc, hrest⟩ := Option.bind_eq_some_iff.mp h
      have hleft := ih hrest
      obtain ⟨rfl, rfl⟩ | ⟨rfl, n, rfl⟩ | ⟨s, rfl, rfl⟩ := follow_cases hc
      · exact .current hleft
      · rw [List.reverse_cons, List.map_append, List.append_assoc]
        exact .parent n hleft
      · rw [List.reverse_cons, List.map_append, List.append_assoc] at hleft
        exact hleft

/-- **The walk ends with what is left after cancelling.** -/
theorem cancels_iff {steps : List Component} {place : List String} :
    Cancels steps place ↔ followAll [] steps = some place.reverse := by
  constructor
  · intro h
    induction h with
    | names place => rw [followAll_names, List.append_nil]
    | @current front back place _ ih =>
        have hskip : followAll [] (front ++ ([.current] ++ back)) = followAll [] (front ++ back) :=
          followAll_leave_out (fun _ => rfl) [] front back
        exact hskip.trans ih
    | @parent front back place n _ ih =>
        have hskip : followAll [] (front ++ ([.name n, .parent] ++ back))
            = followAll [] (front ++ back) := followAll_leave_out (fun _ => rfl) [] front back
        exact hskip.trans ih
  · intro h
    have hleft := cancels_of_followAll h
    rw [List.reverse_reverse] at hleft
    exact hleft

/-! ### Counting -/

/-- The names among steps. -/
def namesAmong (steps : List Component) : List String :=
  steps.filterMap fun
    | .name s => some s
    | _ => none

/-- Steps lead down by as much as they have more names than `..`. -/
theorem height_eq (steps : List Component) :
    height steps = ((namesAmong steps).length : Int) - steps.count .parent := by
  induction steps with
  | nil => rfl
  | cons c rest ih =>
      rw [height, ih]
      cases c with
      | root => simp [descent, namesAmong]
      | current => simp [descent, namesAmong]
      | parent =>
          simp only [descent, namesAmong, List.filterMap_cons, List.count_cons_self]
          omega
      | name s =>
          simp only [descent, namesAmong, List.filterMap_cons, List.length_cons, List.count_cons]
          simp
          omega

/-- Steps **escape** if some first few of them have more `..` than names. -/
def Escapes (steps : List Component) : Prop :=
  ∃ front, front <+: steps ∧ (namesAmong front).length < front.count .parent

/-- Steps **lead back** if they have as many `..` as names. -/
def LeadsBack (steps : List Component) : Prop :=
  (namesAmong steps).length = steps.count .parent

/-- Steps that do not escape are nowhere above their start. -/
theorem not_escapes_iff {steps : List Component} :
    ¬ Escapes steps ↔ ∀ n, 0 ≤ height (steps.take n) := by
  constructor
  · intro h n
    by_contra hlevel
    refine h ⟨steps.take n, List.take_prefix n steps, ?_⟩
    rw [height_eq] at hlevel
    omega
  · rintro h ⟨front, hfront, hless⟩
    have hlevel := h front.length
    rw [← List.prefix_iff_eq_take.mp hfront, height_eq] at hlevel
    omega

/-- Steps that do not escape lead back or to a place below their start. -/
theorem not_escapes_and_not_leadsBack_iff {steps : List Component} :
    ¬ Escapes steps ∧ ¬ LeadsBack steps ↔
      (∀ n, 0 ≤ height (steps.take n)) ∧ 0 < height steps := by
  rw [not_escapes_iff, LeadsBack]
  refine and_congr_right fun hlevels => ?_
  have hlast := hlevels steps.length
  rw [List.take_length, height_eq] at hlast
  rw [height_eq]
  omega

/-! ### The steps of an import -/

/-- An absolute import is **under the input root** if that is absolute as well and the import goes
through all its components first. -/
def IsUnder (inputRoot : Path) (specifier : String) : Prop :=
  inputRoot.isAbsolute = true ∧ inputRoot.components <+: Path.components ⟨specifier⟩

/-- **The steps that an import counts by**: its components if it is relative, and if it is absolute
those behind the input root. -/
inductive CountsBy (inputRoot : Path) (specifier : String) : List Component → Prop
  /-- All components of a relative import count. -/
  | relative : Path.isAbsolute ⟨specifier⟩ = false →
      CountsBy inputRoot specifier (Path.components ⟨specifier⟩)
  /-- Of an absolute import those behind an absolute input root count. -/
  | absolute {steps : List Component} : Path.isAbsolute ⟨specifier⟩ = true →
      inputRoot.isAbsolute = true →
      Path.components ⟨specifier⟩ = inputRoot.components ++ steps →
      CountsBy inputRoot specifier steps

variable {inputRoot : Path} {specifier : String} {steps : List Component}

/-- Steps that an import counts by are those it has from the input root on, if they do not start
from the root again. -/
theorem countsBy_iff :
    CountsBy inputRoot specifier steps ↔ HasSteps inputRoot specifier steps ∧ .root ∉ steps := by
  rw [HasSteps]
  constructor
  · rintro (hrelative | ⟨habsolute, hroot, hsteps⟩)
    · rw [hrelative]
      exact ⟨rfl, Path.root_not_mem_components hrelative⟩
    · rw [if_pos habsolute]
      obtain ⟨rest, hrest, hnot⟩ := Path.components_of_isAbsolute habsolute
      obtain ⟨above, habove, -⟩ := Path.components_of_isAbsolute hroot
      rw [hrest, habove, List.cons_append] at hsteps
      refine ⟨by rw [hrest, habove, hsteps, List.cons_append], fun hmem => hnot ?_⟩
      rw [(List.cons.inj hsteps).2]
      exact List.mem_append_right _ hmem
  · rintro ⟨hsteps, hnot⟩
    by_cases habsolute : Path.isAbsolute ⟨specifier⟩ = true
    · rw [if_pos habsolute] at hsteps
      obtain ⟨rest, hrest, -⟩ := Path.components_of_isAbsolute habsolute
      refine .absolute habsolute ?_ hsteps
      -- The root has to be somewhere, and it is not among the steps.
      by_contra hrelative
      have hmem : .root ∈ inputRoot.components ++ steps := by
        rw [← hsteps, hrest]
        exact List.mem_cons_self
      exact (List.mem_append.mp hmem).elim
        (Path.root_not_mem_components (Bool.eq_false_iff.mpr hrelative)) hnot
    · have hrelative := Bool.eq_false_iff.mpr habsolute
      rw [if_neg habsolute] at hsteps
      exact hsteps ▸ .relative hrelative

/-- An import counts by no two lists of steps. -/
theorem CountsBy.unique {steps' : List Component} (h : CountsBy inputRoot specifier steps)
    (h' : CountsBy inputRoot specifier steps') : steps = steps' := by
  obtain ⟨hsteps, -⟩ := countsBy_iff.mp h
  obtain ⟨hsteps', -⟩ := countsBy_iff.mp h'
  rw [HasSteps] at hsteps hsteps'
  split at hsteps
  · next habsolute =>
    rw [if_pos habsolute] at hsteps'
    exact List.append_cancel_left (hsteps.symm.trans hsteps')
  · next habsolute =>
    rw [if_neg habsolute] at hsteps'
    exact hsteps.symm.trans hsteps'

/-- An import counts by some steps unless it is absolute and not under the input root. -/
theorem exists_countsBy_iff :
    (∃ steps, CountsBy inputRoot specifier steps) ↔
      ¬ (Path.isAbsolute ⟨specifier⟩ = true ∧ ¬ IsUnder inputRoot specifier) := by
  constructor
  · rintro ⟨steps, hrelative | ⟨-, hroot, hsteps⟩⟩ ⟨habsolute, hunder⟩
    · rw [hrelative] at habsolute
      cases habsolute
    · exact hunder ⟨hroot, steps, hsteps.symm⟩
  · intro h
    by_cases habsolute : Path.isAbsolute ⟨specifier⟩ = true
    · obtain ⟨hroot, steps, hsteps⟩ := not_not.mp (not_and.mp h habsolute)
      exact ⟨steps, .absolute habsolute hroot hsteps.symm⟩
    · exact ⟨_, .relative (Bool.eq_false_iff.mpr habsolute)⟩

/-- **Which imports lead nowhere**: those that are absolute and not under the input root, and those
whose steps escape or lead back. -/
theorem not_leadsBelow_iff :
    ¬ LeadsBelow inputRoot specifier ↔
      (Path.isAbsolute ⟨specifier⟩ = true ∧ ¬ IsUnder inputRoot specifier) ∨
        ∃ steps, CountsBy inputRoot specifier steps ∧ (Escapes steps ∨ LeadsBack steps) := by
  have hbelow : LeadsBelow inputRoot specifier ↔
      ∃ steps, CountsBy inputRoot specifier steps ∧ ¬ Escapes steps ∧ ¬ LeadsBack steps := by
    simp only [LeadsBelow, countsBy_iff, not_escapes_and_not_leadsBack_iff, and_assoc]
  rw [hbelow]
  constructor
  · intro h
    by_cases hsome : ∃ steps, CountsBy inputRoot specifier steps
    · obtain ⟨steps, hsteps⟩ := hsome
      refine .inr ⟨steps, hsteps, ?_⟩
      by_contra hneither
      exact h ⟨steps, hsteps, not_or.mp hneither⟩
    · exact .inl (not_not.mp (mt exists_countsBy_iff.mpr hsome))
  · rintro (hnone | ⟨steps, hsteps, hlost⟩) ⟨steps', hsteps', hescapes, hback⟩
    · exact exists_countsBy_iff.mp ⟨steps', hsteps'⟩ hnone
    · obtain rfl := hsteps.unique hsteps'
      exact hlost.elim hescapes hback

/-- **Where an import leads** is what is left of its steps. -/
theorem leadsTo_iff_cancels {place : List String} :
    LeadsTo inputRoot specifier place ↔
      ∃ steps, CountsBy inputRoot specifier steps ∧ Cancels steps place := by
  constructor
  · rintro ⟨steps, hsteps, hplace⟩
    obtain ⟨hroot, -⟩ := exists_followAll_iff.mp ⟨_, hplace⟩
    exact ⟨steps, countsBy_iff.mpr ⟨hsteps, hroot⟩, cancels_iff.mpr hplace⟩
  · rintro ⟨steps, hsteps, hplace⟩
    exact ⟨steps, (countsBy_iff.mp hsteps).1, cancels_iff.mp hplace⟩

/-- An import leads to one place only. -/
theorem LeadsTo.unique {place place' : List String} (h : LeadsTo inputRoot specifier place)
    (h' : LeadsTo inputRoot specifier place') : place = place' := by
  obtain ⟨steps, hsteps, hleft⟩ := leadsTo_iff_cancels.mp h
  obtain ⟨steps', hsteps', hleft'⟩ := leadsTo_iff_cancels.mp h'
  obtain rfl := hsteps.unique hsteps'
  rw [cancels_iff] at hleft hleft'
  exact List.reverse_injective (Option.some.inj (hleft.symm.trans hleft'))

/-! ### Extensions -/

/-- **A name without its extension**, if that is one an import may have. A dot at the very start of
a name does not begin an extension. -/
inductive Stripped (name : String) : String → Prop
  /-- One of the two extensions goes. -/
  | source {stem extension : String} : extension = "ts" ∨ extension = "pas" → stem ≠ "" →
      name = stem ++ "." ++ extension → Stripped name stem
  /-- Any other name stays as it is. -/
  | other : (∀ stem extension, extension = "ts" ∨ extension = "pas" →
      name = stem ++ "." ++ extension → stem = "") → Stripped name name

/-- Any other name stays as it is. -/
theorem stripExtension_eq_self {name : String}
    (hother : ∀ stem extension, extension = "ts" ∨ extension = "pas" →
      name = stem ++ "." ++ extension → stem = "") : stripExtension name = name := by
  rw [stripExtension]
  split
  · next stem e hsplit =>
    obtain ⟨hstem, -, hname⟩ := Path.splitExtension_eq_some_iff.mp hsplit
    refine if_neg fun he => hstem ?_
    have hextension : String.ofList e = "ts" ∨ String.ofList e = "pas" :=
      isSourceExtension_iff.mp (String.toList_ofList.symm ▸ he)
    have htext : name = String.ofList stem ++ "." ++ String.ofList e := by
      rw [← String.toList_inj, hname]
      simp
    have hempty := hother _ _ hextension htext
    rw [← String.toList_inj, String.toList_ofList] at hempty
    exact hempty
  · rfl

/-- **Which name is left** without its extension. -/
theorem stripped_iff {name left : String} : Stripped name left ↔ stripExtension name = left := by
  constructor
  · rintro (⟨hextension, hstem, rfl⟩ | hother)
    · exact stripExtension_extension hextension hstem
    · exact stripExtension_eq_self hother
  · rintro rfl
    by_cases hother : ∀ stem extension, extension = "ts" ∨ extension = "pas" →
        name = stem ++ "." ++ extension → stem = ""
    · rw [stripExtension_eq_self hother]
      exact .other hother
    · push Not at hother
      obtain ⟨stem, extension, hextension, rfl, hstem⟩ := hother
      rw [stripExtension_extension hextension hstem]
      exact .source hextension hstem rfl

/-! ### Detours -/

/-- **A detour** in the text of an import: nothing between two slashes, `.`, or a name and `..`. -/
inductive Detour : List Segment → Prop
  /-- Two slashes with nothing between them. -/
  | nothing : Detour [[]]
  /-- The current directory. -/
  | current : Detour [['.']]
  /-- Down to a name and back. -/
  | back {n : String} : IsName n → Detour [n.toList, ['.', '.']]

namespace Detour

variable {detour : List Segment}

/-- A detour is made of segments, wherever it is put. -/
theorem slash_not_mem {front back : List Segment} (h : Detour detour)
    (hslash : ∀ s ∈ front ++ back, '/' ∉ s) : ∀ s ∈ front ++ (detour ++ back), '/' ∉ s := by
  have hdetour : ∀ s ∈ detour, '/' ∉ s := by
    cases h with
    | nothing => decide
    | current => decide
    | back hn => exact List.forall_mem_cons.mpr ⟨hn.noSlash, by decide⟩
  rw [List.forall_mem_append] at hslash
  exact List.forall_mem_append.mpr ⟨hslash.1, List.forall_mem_append.mpr ⟨hdetour, hslash.2⟩⟩

/-- **A detour leads back** to where it starts from, wherever that is. -/
theorem followAll_eq (h : Detour detour) (names : List String) :
    followAll names (detour.filterMap component?) = some names := by
  cases h with
  | nothing => rfl
  | current => rfl
  | @back n hn =>
      have hdown := Path.component?_eq_name.mpr ⟨hn.ordinary, String.ofList_toList⟩
      rw [List.filterMap_cons_some hdown]
      rfl

end Detour

/-- **An import with a detour**: the same text but for a detour that is put before, between or
behind its segments. The first segment is not empty, since a slash at the start is no second one. -/
def HasDetour (before after : String) : Prop :=
  ∃ front detour back, Detour detour ∧ (∀ s ∈ front ++ back, '/' ∉ s) ∧
    (front ++ detour).head? ≠ some [] ∧
    before.toList = joinSlash (front ++ back) ∧
    after.toList = joinSlash (front ++ (detour ++ back))

/-- A relative import may as well be followed segment by segment. -/
theorem followAll_components {p : Path} (hp : p.isAbsolute = false) (names : List String) :
    followAll names p.components
      = followAll names ((splitSlash p.text.toList).filterMap component?) := by
  rcases Path.components_of_relative hp with h | h <;> rw [h]
  rfl

/-- An import with a detour is relative. -/
theorem HasDetour.isAbsolute_eq_false {before after : String} (h : HasDetour before after) :
    Path.isAbsolute ⟨after⟩ = false := by
  obtain ⟨front, detour, back, hdetour, hslash, hfirst, -, htext⟩ := h
  have hslash' := hdetour.slash_not_mem hslash
  rw [← List.append_assoc] at htext hslash'
  match hsegments : front ++ detour with
  | [] => cases hdetour <;> simp at hsegments
  | [] :: rest =>
      rw [hsegments] at hfirst
      exact absurd rfl hfirst
  | (c :: cs) :: rest =>
      rw [hsegments, List.cons_append] at htext hslash'
      have hstart : after.toList.head? = some c := by
        rw [htext]
        cases rest ++ back <;> rfl
      have hc : c ≠ '/' := fun heq =>
        hslash' (c :: cs) List.mem_cons_self (heq ▸ List.mem_cons_self)
      rw [Path.isAbsolute, hstart]
      simpa using hc

/-- A detour does not change where a relative import leads. -/
theorem HasDetour.followAll_eq {before after : String} (h : HasDetour before after)
    (hbefore : Path.isAbsolute ⟨before⟩ = false) :
    followAll [] (Path.components ⟨after⟩) = followAll [] (Path.components ⟨before⟩) := by
  have hafter := h.isAbsolute_eq_false
  obtain ⟨front, detour, back, hdetour, hslash, -, htext, htext'⟩ := h
  have hslash' := hdetour.slash_not_mem hslash
  rw [followAll_components hbefore, followAll_components hafter, htext, htext',
    Path.filterMap_splitSlash_joinSlash hslash, Path.filterMap_splitSlash_joinSlash hslash',
    List.filterMap_append, List.filterMap_append, List.filterMap_append]
  exact followAll_leave_out hdetour.followAll_eq [] _ _

/-- Relative imports that lead to the same place are resolved alike. -/
theorem resolveImport?_eq_of_followAll_eq (inputRoot : Path) {a b : String}
    (ha : Path.isAbsolute ⟨a⟩ = false) (hb : Path.isAbsolute ⟨b⟩ = false)
    (h : followAll [] (Path.components ⟨a⟩) = followAll [] (Path.components ⟨b⟩)) :
    resolveImport? inputRoot a = resolveImport? inputRoot b := by
  have hpath {s : String} (hs : Path.isAbsolute ⟨s⟩ = false) :
      importPath? inputRoot s = some ⟨s⟩ := by rw [importPath?, hs]; rfl
  rw [resolveImport?, resolveImport?, hpath ha, hpath hb, Option.bind_eq_bind, Option.bind_some,
    Option.bind_eq_bind, Option.bind_some, h]

/-! ### Resolving -/

/-- **When an import is resolved, and to what.** It is not resolved exactly if it is absolute and
not under the input root, or if its steps escape or lead back. Otherwise it is resolved to the names
that are left of its steps, with slashes between them and the extension of the last one stripped.
Detours in a relative import do not matter. -/
theorem resolveImport?_by_cancelling (inputRoot : Path) (specifier : String) :
    (resolveImport? inputRoot specifier = none ↔
      (Path.isAbsolute ⟨specifier⟩ = true ∧ ¬ IsUnder inputRoot specifier) ∨
        ∃ steps, CountsBy inputRoot specifier steps ∧ (Escapes steps ∨ LeadsBack steps)) ∧
    (∀ relative, resolveImport? inputRoot specifier = some relative ↔
      ∃ steps above last name, CountsBy inputRoot specifier steps ∧
        Cancels steps (above ++ [last]) ∧ Stripped last name ∧
        relative.text = "/".intercalate (above ++ [name])) ∧
    (Path.isAbsolute ⟨specifier⟩ = false → ∀ after, HasDetour specifier after →
      resolveImport? inputRoot after = resolveImport? inputRoot specifier) := by
  refine ⟨resolveImport?_eq_none_iff.trans not_leadsBelow_iff, fun relative => ?_,
    fun hbefore after hdetour => ?_⟩
  · rw [resolveImport?_eq_some_iff]
    constructor
    · rintro ⟨above, last, hplace, rfl⟩
      obtain ⟨steps, hsteps, hleft⟩ := leadsTo_iff_cancels.mp hplace
      exact ⟨steps, above, last, _, hsteps, hleft, stripped_iff.mpr rfl, Path.text_ofNames _⟩
    · rintro ⟨steps, above, last, name, hsteps, hleft, hname, htext⟩
      obtain rfl := stripped_iff.mp hname
      refine ⟨above, last, leadsTo_iff_cancels.mpr ⟨steps, hsteps, hleft⟩, ?_⟩
      rw [← Path.text_ofNames] at htext
      exact congrArg Path.mk htext
  · exact resolveImport?_eq_of_followAll_eq inputRoot hdetour.isAbsolute_eq_false hbefore
      (hdetour.followAll_eq hbefore)

/-- The way down to a directory and back does not matter. -/
theorem resolveImport?_detour_strings :
    HasDetour "lib/strings.ts" "lib/old/../strings.ts" ∧
      resolveImport? ⟨"/project/in"⟩ "lib/old/../strings.ts" = some ⟨"lib/strings"⟩ := by
  have hname : IsName "old" := ⟨by decide, by decide⟩
  have hdetour : HasDetour "lib/strings.ts" "lib/old/../strings.ts" :=
    ⟨["lib".toList], _, ["strings.ts".toList], .back hname, by decide, by decide, by decide,
      by decide⟩
  refine ⟨hdetour, ?_⟩
  rw [(resolveImport?_by_cancelling ⟨"/project/in"⟩ "lib/strings.ts").2.2 rfl _ hdetour]
  decide

end DelphiUnits.Pascal

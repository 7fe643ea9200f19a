import DelphiUnits.Proofs.Path.Files

/-!
# Paths from the current directory

A relative path leads to the same place with `./` in front of it and without. What it goes through
is then said by its **steps**: its components, but for the current directory at the start. The same
steps do not yet make the same text, so a path whose base is taken away is compared by how it
**ends**: names that stand at its end, one segment each, are all that is left if the base leads up
to them, however the base is written.

## Main results

* `endsIn_joinNames`: a path that goes on through names ends in them;
* `stripBase?_eq_ofNames`, `stripBase?_joinNames`: what is left without a base of a path that ends
  in names;
* `UpToCurrent.steps_eq`, `UpToCurrent.endsIn_iff`: what does not depend on a leading `./`.
-/

namespace DelphiUnits.Path

variable {p q base : Path} {names : List String} {front body : List Segment}

/-! ### Ends -/

/-- The path **ends in the names**, as they are written: they are its last segments. -/
def EndsIn (p : Path) (names : List String) : Prop :=
  names.map String.toList <:+ splitSlash p.text.toList

/-- Names do not reach into segments that say nothing. -/
theorem suffix_append_iff (hnames : ∀ n ∈ names, IsName n)
    (hfront : ∀ s ∈ front, isSilent s = true) :
    names.map String.toList <:+ front ++ body ↔ names.map String.toList <:+ body := by
  refine ⟨fun h => ?_, fun h => h.trans (List.suffix_append front body)⟩
  induction front with
  | nil => exact h
  | cons s front ih =>
      rcases List.suffix_cons_iff.mp h with hall | hrest
      · obtain ⟨n, hn, rfl⟩ := List.mem_map.mp (hall ▸ List.mem_cons_self)
        have hsilent := hfront n.toList List.mem_cons_self
        exact absurd hsilent (by simp [(hnames n hn).ordinary.isSilent_eq_false])
      · exact ih (fun t ht => hfront t (List.mem_cons_of_mem _ ht)) hrest

/-- Names put together are a relative path. -/
theorem isAbsolute_ofNames (hnames : ∀ n ∈ names, IsName n) : (ofNames names).isAbsolute = false :=
  isAbsolute_eq_false (by simp [components_ofNames hnames])

/-- **Going on through names** is going on with a path that is put together from them. -/
theorem joinNames_eq_join (p : Path) (hne : names ≠ []) (hnames : ∀ n ∈ names, IsName n) :
    p.joinNames names = p.join (ofNames names) := by
  induction names generalizing p with
  | nil => exact absurd rfl hne
  | cons n rest ih =>
      obtain ⟨hn, hrest⟩ := List.forall_mem_cons.mp hnames
      have hname : ofNames [n] = ⟨n⟩ := congrArg Path.mk String.ofList_toList
      by_cases hlast : rest = []
      · subst hlast
        rw [hname]
        rfl
      · have hcons : (Path.mk n).join (ofNames rest) = ofNames (n :: rest) := by
          have hseparator := separator_ofNames (List.cons_ne_nil n []) (by simpa using hn)
          have hjoin : joinSlash ((n :: rest).map String.toList)
              = n.toList ++ '/' :: joinSlash (rest.map String.toList) := by
            rw [List.map_cons, joinSlash]
            exact mt List.map_eq_nil_iff.mp hlast
          refine ext_toList ?_
          rw [hname] at hseparator
          rw [toList_join _ (isAbsolute_ofNames hrest), hseparator, toList_ofNames, toList_ofNames,
            hjoin, List.append_assoc, List.singleton_append]
        rw [joinNames, List.foldl_cons, ← joinNames, ih _ hlast hrest,
          join_assoc p (isAbsolute_name hn) (isAbsolute_ofNames hrest), hcons]

/-- **A path that goes on through names** ends in them. -/
theorem endsIn_joinNames (p : Path) (hne : names ≠ []) (hnames : ∀ n ∈ names, IsName n) :
    (p.joinNames names).EndsIn names := by
  rw [joinNames_eq_join p hne hnames, EndsIn, toList_join p (isAbsolute_ofNames hnames),
    ← splitSlash_ofNames hne hnames]
  rcases List.eq_nil_or_concat (p.text.toList ++ p.separator) with hempty | ⟨before, c, hbefore⟩
  · rw [hempty]
    exact List.suffix_refl _
  · have hslash := getLast?_append_separator p
    rw [List.concat_eq_append] at hbefore
    rw [hbefore] at hslash ⊢
    obtain rfl : c = '/' := hslash c (by simp)
    rw [List.append_assoc, List.singleton_append, splitSlash_append_slash]
    exact List.suffix_append _ _

/-! ### Taking a base away -/

/-- Names at the end of a path are at the end of what stands behind its start. -/
theorem EndsIn.suffix_opening (h : p.EndsIn names) (hnames : ∀ n ∈ names, IsName n) :
    names.map String.toList <:+ p.opening.2 := by
  have hbehind {s : Segment} {body : List Segment} (hs : isSilent s = true)
      (h : names.map String.toList <:+ [s] ++ body) : names.map String.toList <:+ body :=
    (suffix_append_iff hnames (List.forall_mem_singleton.mpr hs)).mp h
  rw [EndsIn] at h
  rcases opening_cases p with ⟨rest, htext, hp⟩ | ⟨htext, hp⟩ | ⟨rest, htext, hp⟩ | ⟨hp, -⟩ <;>
    rw [hp]
  · rw [htext] at h
    exact hbehind (s := []) (by decide) h
  · rw [htext] at h
    exact hbehind (s := ['.']) (by decide) h
  · rw [htext] at h
    exact hbehind (s := ['.']) (by decide) h
  · exact h

/-- Segments that end in names have no silent end. -/
theorem trimRight_of_suffix (h : names.map String.toList <:+ body) (hne : names ≠ [])
    (hnames : ∀ n ∈ names, IsName n) : trimRight body = body := by
  obtain ⟨front, rfl⟩ := h
  obtain ⟨above, last, rfl⟩ : ∃ above last, names = above ++ [last] :=
    ⟨_, _, (List.dropLast_concat_getLast hne).symm⟩
  refine trimRight_eq_self fun s hs => ?_
  rw [List.map_append, List.map_singleton, ← List.append_assoc, List.getLast?_concat] at hs
  obtain rfl := Option.some.inj hs
  exact (hnames last (by simp)).ordinary.isSilent_eq_false

/-- Segments with a first one that says something have no silent start. -/
theorem dropWhile_isSilent_eq_self (h : ∀ s ∈ body.head?, isSilent s = false) :
    body.dropWhile isSilent = body := by
  cases body with
  | nil => rfl
  | cons s rest => rw [List.dropWhile_cons_of_neg (by simp [h s rfl])]

/-- Names have no silent start. -/
theorem dropWhile_isSilent_names (hnames : ∀ n ∈ names, IsName n) :
    (names.map String.toList).dropWhile isSilent = names.map String.toList := by
  refine dropWhile_isSilent_eq_self fun s hs => ?_
  obtain ⟨n, hn, rfl⟩ := List.mem_map.mp (List.mem_of_head? hs)
  exact (hnames n hn).ordinary.isSilent_eq_false

/-- **Names stay at the end** if silent segments are taken away. -/
theorem suffix_trimSilent (h : names.map String.toList <:+ body) (hne : names ≠ [])
    (hnames : ∀ n ∈ names, IsName n) : names.map String.toList <:+ trimSilent body := by
  have hdrop : names.map String.toList <:+ body.dropWhile isSilent := by
    obtain ⟨front, rfl⟩ := h
    rw [List.dropWhile_append]
    split
    · exact ⟨[], (dropWhile_isSilent_names hnames).symm⟩
    · exact List.suffix_append _ _
  rw [trimSilent, trimRight_of_suffix hdrop hne hnames]
  exact hdrop

/-- **Behind the components before them**, names are all that is left. -/
theorem trimSilent_dropComponents (hne : names ≠ []) (hnames : ∀ n ∈ names, IsName n)
    (front : List Segment) :
    trimSilent (dropComponents (front.filterMap component?).length
      (front ++ names.map String.toList)) = names.map String.toList := by
  induction front with
  | nil =>
      rw [List.filterMap_nil, List.length_nil, List.nil_append, dropComponents, trimSilent,
        dropWhile_isSilent_names hnames, trimRight_of_suffix (List.suffix_refl _) hne hnames]
  | cons s front ih =>
      by_cases hs : isSilent s = true
      · rw [List.filterMap_cons_none (Option.isNone_iff_eq_none.mp hs), List.cons_append]
        refine Eq.trans ?_ ih
        cases (front.filterMap component?).length with
        | zero =>
            rw [dropComponents, dropComponents, trimSilent, List.dropWhile_cons_of_pos hs,
              ← trimSilent]
        | succ k => rw [dropComponents, if_pos hs]
      · obtain ⟨c, hc⟩ := Option.ne_none_iff_exists'.mp (mt Option.isNone_iff_eq_none.mpr hs)
        rw [List.filterMap_cons_some hc, List.length_cons, List.cons_append, dropComponents,
          if_neg hs, ih]

/-- **What is left of a path that ends in names**, without a base that leads up to them: the path
put together from the names. -/
theorem stripBase?_eq_ofNames (hend : p.EndsIn names) (hne : names ≠ [])
    (hnames : ∀ n ∈ names, IsName n) (hp : p.components = base.components ++ names.map .name) :
    p.stripBase? base = some (ofNames names) := by
  have hstarts : base.components.isPrefixOf p.components = true :=
    List.isPrefixOf_iff_prefix.mpr ⟨_, hp.symm⟩
  obtain ⟨front, hbody⟩ := hend.suffix_opening hnames
  have hbase : base.components = p.opening.1.toList ++ front.filterMap component? := by
    have hordinary : ∀ n ∈ names, IsOrdinary n.toList := fun n hn => (hnames n hn).ordinary
    rw [components, ← hbody, List.filterMap_append, filterMap_component?_names hordinary,
      ← List.append_assoc] at hp
    exact (List.append_cancel_right hp).symm
  have hpath {segments : List Segment} (h : segments = names.map String.toList) :
      Path.mk (String.ofList (joinSlash segments)) = ofNames names := by
    rw [h, ofNames]
  have hleft := trimSilent_dropComponents hne hnames front
  rw [stripBase?, if_pos hstarts, hbase]
  refine congrArg some ?_
  rcases hopening : p.opening with ⟨_ | start, body⟩ <;> rw [hopening] at hbody <;> subst hbody
  · rw [Option.toList_none, List.nil_append]
    cases hcount : (front.filterMap component?).length with
    | zero =>
        -- A base without components leaves the start as it is. Nothing silent is there, unless the
        -- text is empty; then it has a single segment, which is no name.
        rw [hcount, dropComponents] at hleft
        rw [drop, hopening]
        obtain ⟨hsplit, hempty | hfirst⟩ := opening_of_fst_eq_none (congrArg Prod.fst hopening)
        · have hnone : trimSilent (splitSlash []) = [] := by decide
          rw [(Prod.mk.inj (hopening.symm.trans hsplit)).2, hempty, hnone] at hleft
          exact absurd (List.map_eq_nil_iff.mp hleft.symm) hne
        · rw [← (Prod.mk.inj (hopening.symm.trans hsplit)).2] at hfirst
          rw [trimSilent, dropWhile_isSilent_eq_self hfirst] at hleft
          exact hpath hleft
    | succ k =>
        rw [drop, hopening]
        exact hpath (hcount ▸ hleft)
  · rw [Option.toList_some, List.singleton_append, List.length_cons, drop, hopening]
    exact hpath hleft

/-- **A path that goes on through names**, without where it goes on from. -/
theorem stripBase?_joinNames (base : Path) (hne : names ≠ []) (hnames : ∀ n ∈ names, IsName n) :
    (base.joinNames names).stripBase? base = some (ofNames names) :=
  stripBase?_eq_ofNames (endsIn_joinNames base hne hnames) hne hnames
    (components_joinNames base hnames)

/-! ### Steps -/

/-- The **steps** of a path: its components, without the current directory. -/
def steps (p : Path) : List Component :=
  p.components.filter (· != .current)

/-- Only the start of a path stands for the current directory. -/
theorem filter_filterMap_component? (body : List Segment) :
    (body.filterMap component?).filter (· != .current) = body.filterMap component? := by
  refine List.filter_eq_self.mpr fun c hc => ?_
  obtain ⟨s, -, hs⟩ := List.mem_filterMap.mp hc
  revert hs
  fun_cases component? s <;> rintro ⟨⟩ <;> rfl

/-- **The steps of a relative path** are the components of its segments. -/
theorem steps_of_relative (hp : p.isAbsolute = false) :
    p.steps = (splitSlash p.text.toList).filterMap component? := by
  rcases components_of_relative hp with h | h
  · rw [steps, h, filter_filterMap_component?]
  · rw [steps, h, List.filter_cons_of_neg (by decide), filter_filterMap_component?]

/-- Going on through names puts them behind the steps. -/
theorem steps_joinNames (p : Path) (hnames : ∀ n ∈ names, IsName n) :
    (p.joinNames names).steps = p.steps ++ names.map .name := by
  rw [steps, components_joinNames p hnames, List.filter_append, ← steps]
  refine congrArg (p.steps ++ ·) (List.filter_eq_self.mpr fun c hc => ?_)
  obtain ⟨n, -, rfl⟩ := List.mem_map.mp hc
  rfl

/-- **The current directory** is only at the start of a path, and its steps are what follows. -/
theorem components_eq_steps (p : Path) :
    p.opening.1 = some .current ∧ p.components = .current :: p.steps ∨
      p.opening.1 ≠ some .current ∧ p.components = p.steps := by
  have hsteps : p.steps
      = p.opening.1.toList.filter (· != .current) ++ p.opening.2.filterMap component? := by
    rw [steps, components, List.filter_append, filter_filterMap_component?]
  rw [hsteps, components]
  rcases opening_cases p with ⟨_, -, h⟩ | ⟨-, h⟩ | ⟨_, -, h⟩ | ⟨h, -⟩ <;> rw [h]
  · exact .inr ⟨by simp, rfl⟩
  · exact .inl ⟨rfl, rfl⟩
  · exact .inl ⟨rfl, rfl⟩
  · exact .inr ⟨by simp, rfl⟩

/-! ### A leading `./` -/

/-- The path **from the current directory on**: behind `./` and any further slashes. -/
def fromCurrent (p : Path) (slashes : Nat) : Path :=
  ⟨"./" ++ String.ofList (List.replicate slashes '/') ++ p.text⟩

/-- **Paths that are the same up to a leading `./`**, which only a relative path can have. -/
inductive UpToCurrent : Path → Path → Prop
  /-- Nothing is changed. -/
  | refl (p : Path) : UpToCurrent p p
  /-- A leading `./` is added. -/
  | added {p : Path} (hp : p.isAbsolute = false) (slashes : Nat) :
      UpToCurrent p (p.fromCurrent slashes)
  /-- A leading `./` is dropped. -/
  | dropped {p : Path} (hp : p.isAbsolute = false) (slashes : Nat) :
      UpToCurrent (p.fromCurrent slashes) p

/-- **The segments of a path from the current directory on** are silent ones and its own. -/
theorem splitSlash_fromCurrent (p : Path) (slashes : Nat) :
    ∃ front, (∀ s ∈ front, isSilent s = true) ∧
      splitSlash (p.fromCurrent slashes).text.toList = front ++ splitSlash p.text.toList := by
  have hslashes : splitSlash (List.replicate slashes '/' ++ p.text.toList)
      = List.replicate slashes [] ++ splitSlash p.text.toList := by
    induction slashes with
    | zero => rfl
    | succ slashes ih =>
        rw [List.replicate_succ, List.cons_append, splitSlash, if_pos rfl, ih]
        rfl
  refine ⟨['.'] :: List.replicate slashes [], ?_, ?_⟩
  · refine List.forall_mem_cons.mpr ⟨by decide, fun s hs => ?_⟩
    obtain rfl := List.eq_of_mem_replicate hs
    decide
  · have htext : (p.fromCurrent slashes).text.toList
        = ['.'] ++ '/' :: (List.replicate slashes '/' ++ p.text.toList) := by
      simp [fromCurrent]
    rw [htext, splitSlash_append_slash, hslashes]
    rfl

/-- A path from the current directory on is relative. -/
theorem isAbsolute_fromCurrent (p : Path) (slashes : Nat) :
    (p.fromCurrent slashes).isAbsolute = false := by
  simp [isAbsolute, fromCurrent]

/-- A leading `./` is no step. -/
theorem steps_fromCurrent (hp : p.isAbsolute = false) (slashes : Nat) :
    (p.fromCurrent slashes).steps = p.steps := by
  obtain ⟨front, hsilent, hsplit⟩ := splitSlash_fromCurrent p slashes
  have hnone : front.filterMap component? = [] :=
    List.filterMap_eq_nil_iff.mpr fun s hs => Option.isNone_iff_eq_none.mp (hsilent s hs)
  rw [steps_of_relative (isAbsolute_fromCurrent p slashes), steps_of_relative hp, hsplit,
    List.filterMap_append, hnone, List.nil_append]

/-- A leading `./` does not change how a path ends. -/
theorem endsIn_fromCurrent_iff (hnames : ∀ n ∈ names, IsName n) (slashes : Nat) :
    (p.fromCurrent slashes).EndsIn names ↔ p.EndsIn names := by
  obtain ⟨front, hsilent, hsplit⟩ := splitSlash_fromCurrent p slashes
  rw [EndsIn, hsplit, suffix_append_iff hnames hsilent, EndsIn]

/-- **The steps do not depend on a leading `./`.** -/
theorem UpToCurrent.steps_eq (h : UpToCurrent p q) : q.steps = p.steps := by
  cases h with
  | refl => rfl
  | added hp slashes => exact steps_fromCurrent hp slashes
  | dropped hq slashes => exact (steps_fromCurrent hq slashes).symm

/-- **How a path ends does not depend on a leading `./`.** -/
theorem UpToCurrent.endsIn_iff (h : UpToCurrent p q) (hnames : ∀ n ∈ names, IsName n) :
    q.EndsIn names ↔ p.EndsIn names := by
  cases h with
  | refl => rfl
  | added _ slashes => exact endsIn_fromCurrent_iff hnames slashes
  | dropped _ slashes => exact (endsIn_fromCurrent_iff hnames slashes).symm

end DelphiUnits.Path

import DelphiUnits.Proofs.Path.Segments

/-!
# Components

A path is a text, but where it leads is said by its components. This module relates the
operations on the text of a path to its components: putting together names, going on from a path,
going up, and taking away a base.

## Main results

* `components_ofNames`: a path put together from names leads through them;
* `components_of_isAbsolute`, `components_of_relative`: what the components start with;
* `components_join`, `join_assoc`: going on from a path puts the components behind its own;
* `exists_stripBase?_iff`: what follows a base are the components behind those of the base;
* `exists_parent?`: going up takes the last name away;
* `fileName?_ofNames_concat_eq_none_iff`: which paths end in no name.
-/

namespace DelphiUnits.Path

/-! ### Openings -/

/-- **How a path can start**: at the root, in the current directory, or with a segment that
says something. -/
theorem opening_cases (p : Path) :
    (∃ rest, p.text.toList = '/' :: rest ∧ p.opening = (some .root, splitSlash rest)) ∨
    (p.text.toList = ['.'] ∧ p.opening = (some .current, [])) ∨
    (∃ rest, p.text.toList = '.' :: '/' :: rest ∧
      p.opening = (some .current, splitSlash rest)) ∨
    (p.opening = (none, splitSlash p.text.toList) ∧ (p.text.toList = [] ∨
      ∀ s ∈ (splitSlash p.text.toList).head?, isSilent s = false)) := by
  fun_cases opening p with
  | case1 rest htext => exact .inl ⟨rest, htext, rfl⟩
  | case2 htext => exact .inr (.inl ⟨htext, rfl⟩)
  | case3 rest htext => exact .inr (.inr (.inl ⟨rest, htext, rfl⟩))
  | case4 hroot hdot hcurrent =>
      refine .inr (.inr (.inr ⟨rfl, ?_⟩))
      cases htext : p.text.toList with
      | nil => exact .inl rfl
      | cons c cs =>
          have hc : c ≠ '/' := fun hc => hroot cs (hc ▸ htext)
          obtain ⟨s, rest, hcs, hcut⟩ := splitSlash_cons hc cs
          refine .inr fun t ht => Bool.eq_false_iff.mpr fun hsilent => ?_
          obtain rfl : c :: s = t := by
            rw [hcut] at ht
            exact Option.some.inj ht
          -- A silent segment is a `.` here, and what follows it is a slash or nothing.
          obtain ⟨rfl, rfl⟩ : c = '.' ∧ s = [] := by
            simpa [isSilent_iff] using hsilent
          cases cs with
          | nil => exact hdot htext
          | cons x xs =>
              by_cases hx : x = '/'
              · exact hcurrent xs (hx ▸ htext)
              · obtain ⟨t, rest', -, hcut'⟩ := splitSlash_cons hx xs
                exact absurd (hcs.symm.trans hcut') (by simp)

/-- A path whose first segment says something has nothing special at its start. -/
theorem opening_of_isSilent_eq_false {p : Path} {s : Segment} {rest : List Segment}
    (hp : splitSlash p.text.toList = s :: rest) (hs : isSilent s = false) :
    p.opening = (none, s :: rest) := by
  rcases opening_cases p with ⟨cs, htext, -⟩ | ⟨htext, -⟩ | ⟨cs, htext, -⟩ | ⟨hopening, -⟩
  · rw [htext] at hp
    exact absurd ((List.cons.inj hp).1 ▸ hs) (by decide)
  · rw [htext] at hp
    exact absurd ((List.cons.inj hp).1 ▸ hs) (by decide)
  · rw [htext] at hp
    exact absurd ((List.cons.inj hp).1 ▸ hs) (by decide)
  · rw [hopening, hp]

/-- The segments behind the start of a path have no slashes in them, and only characters of
the path. -/
theorem mem_of_mem_opening {p : Path} {s : Segment} {c : Char} (hs : s ∈ p.opening.2)
    (hc : c ∈ s) : c ≠ '/' ∧ c ∈ p.text.toList := by
  rcases opening_cases p with ⟨cs, htext, h⟩ | ⟨-, h⟩ | ⟨cs, htext, h⟩ | ⟨h, -⟩
  · rw [h] at hs
    rw [htext]
    have hmem := mem_of_mem_splitSlash hs hc
    exact ⟨hmem.1, List.mem_cons_of_mem _ hmem.2⟩
  · rw [h] at hs
    exact absurd hs List.not_mem_nil
  · rw [h] at hs
    rw [htext]
    have hmem := mem_of_mem_splitSlash hs hc
    exact ⟨hmem.1, List.mem_cons_of_mem _ (List.mem_cons_of_mem _ hmem.2)⟩
  · rw [h] at hs
    exact mem_of_mem_splitSlash hs hc

/-- A path with no special start is what its segments say, the first of which says something. -/
theorem opening_of_fst_eq_none {p : Path} (hp : p.opening.1 = none) :
    p.opening = (none, splitSlash p.text.toList) ∧ (p.text.toList = [] ∨
      ∀ s ∈ (splitSlash p.text.toList).head?, isSilent s = false) := by
  rcases opening_cases p with ⟨_, -, h⟩ | ⟨-, h⟩ | ⟨_, -, h⟩ | h
  · exact absurd (h ▸ hp) (by simp)
  · exact absurd (h ▸ hp) (by simp)
  · exact absurd (h ▸ hp) (by simp)
  · exact h

/-! ### Components -/

/-- **The names in a path** are ordinary, without slashes, and made of its characters. -/
theorem isName_of_mem {p : Path} {n : String} (hn : .name n ∈ p.components) :
    IsName n ∧ ∀ c ∈ n.toList, c ∈ p.text.toList := by
  have hbody : .name n ∈ p.opening.2.filterMap component? := by
    rcases List.mem_append.mp hn with hstart | hbody
    · rcases opening_cases p with ⟨_, -, h⟩ | ⟨-, h⟩ | ⟨_, -, h⟩ | ⟨h, -⟩ <;> simp [h] at hstart
    · exact hbody
  obtain ⟨s, hs, hname⟩ := List.mem_filterMap.mp hbody
  obtain ⟨hordinary, rfl⟩ := component?_eq_name.mp hname
  have hchars : (String.ofList s).toList = s := String.toList_ofList
  refine ⟨⟨hchars.symm ▸ hordinary, fun hslash => ?_⟩, fun c hc => ?_⟩
  · exact (mem_of_mem_opening hs (hchars ▸ hslash)).1 rfl
  · exact (mem_of_mem_opening hs (hchars ▸ hc)).2

/-- A path that does not go through the root is not absolute. -/
theorem isAbsolute_eq_false {p : Path} (hp : .root ∉ p.components) : p.isAbsolute = false := by
  refine Bool.eq_false_iff.mpr fun habsolute => hp ?_
  obtain ⟨cs, htext⟩ : ∃ cs, p.text.toList = '/' :: cs :=
    List.head?_eq_some_iff.mp (beq_iff_eq.mp habsolute)
  rw [components, opening, htext]
  exact List.mem_append_left _ List.mem_cons_self

/-- The components of a path with no special start. -/
theorem components_of_fst_eq_none {p : Path} (hp : p.opening.1 = none) :
    p.components = (splitSlash p.text.toList).filterMap component? := by
  rw [components, (opening_of_fst_eq_none hp).1]
  rfl

/-- The characters of a path put together from names. -/
theorem toList_ofNames (names : List String) :
    (ofNames names).text.toList = joinSlash (names.map String.toList) :=
  String.toList_ofList

/-- A path put together from names is written with slashes between them. -/
theorem text_ofNames (names : List String) : (ofNames names).text = "/".intercalate names := by
  rw [← String.toList_inj, toList_ofNames, String.toList_intercalate]
  induction names with
  | nil => rfl
  | cons n rest ih =>
      cases rest with
      | nil => simp [joinSlash, List.intercalate]
      | cons m rest =>
          rw [List.map_cons, List.map_cons, List.intercalate_cons_cons, ← List.map_cons, ← ih]
          simp [joinSlash]

/-- A path put together from names is cut into these names. -/
theorem splitSlash_ofNames {names : List String} (hne : names ≠ [])
    (hnames : ∀ n ∈ names, IsName n) :
    splitSlash (ofNames names).text.toList = names.map String.toList := by
  rw [toList_ofNames, splitSlash_joinSlash (mt List.map_eq_nil_iff.mp hne)]
  intro s hs
  obtain ⟨n, hn, rfl⟩ := List.mem_map.mp hs
  exact (hnames n hn).noSlash

/-- **A path put together from names** leads through these names. -/
theorem components_ofNames {names : List String} (hnames : ∀ n ∈ names, IsName n) :
    (ofNames names).components = names.map .name := by
  cases names with
  | nil => rfl
  | cons n rest =>
      have hcut := splitSlash_ofNames (List.cons_ne_nil n rest) hnames
      have hopening := opening_of_isSilent_eq_false hcut
        (hnames n List.mem_cons_self).ordinary.isSilent_eq_false
      rw [components_of_fst_eq_none (by rw [hopening]), hcut,
        filterMap_component?_names fun m hm => (hnames m hm).ordinary]

/-- A name is a path of one component. -/
theorem components_name {n : String} (hn : IsName n) : components ⟨n⟩ = [.name n] := by
  have hcut := splitSlash_of_not_mem hn.noSlash
  rw [components, opening_of_isSilent_eq_false hcut hn.ordinary.isSilent_eq_false]
  simp [component?_eq_name.mpr ⟨hn.ordinary, String.ofList_toList⟩]

/-- A path from the current directory on. -/
theorem components_current {p : Path} (hp : p.opening.1 = none) :
    components ⟨"./" ++ p.text⟩ = .current :: p.components := by
  have htext : ("./" ++ p.text).toList = '.' :: '/' :: p.text.toList := by
    rw [String.toList_append]
    rfl
  rw [components_of_fst_eq_none hp, components, opening, htext]
  rfl

/-- A path that leads through names only has nothing special at its start. -/
theorem opening_fst_eq_none {p : Path} {names : List String}
    (hp : p.components = names.map .name) : p.opening.1 = none := by
  cases hstart : p.opening.1 with
  | none => rfl
  | some start =>
      have hmem : start ∈ p.components := by
        rw [components, hstart]
        exact List.mem_append_left _ List.mem_cons_self
      rw [hp] at hmem
      obtain ⟨n, -, rfl⟩ := List.mem_map.mp hmem
      rcases opening_cases p with ⟨_, -, h⟩ | ⟨-, h⟩ | ⟨_, -, h⟩ | ⟨h, -⟩ <;> simp [h] at hstart

/-- What follows a slash behind a path goes behind its components. -/
theorem components_append_slash {xs : List Char} (hxs : xs ≠ []) (ys : List Char) :
    components ⟨String.ofList (xs ++ '/' :: ys)⟩
      = components ⟨String.ofList xs⟩ ++ (splitSlash ys).filterMap component? := by
  have hlong : (Path.mk (String.ofList (xs ++ '/' :: ys))).text.toList = xs ++ '/' :: ys :=
    String.toList_ofList
  rcases opening_cases ⟨String.ofList xs⟩ with
    ⟨cs, htext, h⟩ | ⟨htext, h⟩ | ⟨cs, htext, h⟩ | ⟨h, hempty | hfirst⟩
  · obtain rfl : xs = '/' :: cs := String.toList_ofList.symm.trans htext
    rw [components, components, h, opening, hlong]
    change _ :: (splitSlash (cs ++ '/' :: ys)).filterMap component? = _
    rw [splitSlash_append_slash, List.filterMap_append]
    rfl
  · obtain rfl : xs = ['.'] := String.toList_ofList.symm.trans htext
    rw [components, components, h, opening, hlong]
    rfl
  · obtain rfl : xs = '.' :: '/' :: cs := String.toList_ofList.symm.trans htext
    rw [components, components, h, opening, hlong]
    change _ :: (splitSlash (cs ++ '/' :: ys)).filterMap component? = _
    rw [splitSlash_append_slash, List.filterMap_append]
    rfl
  · exact absurd (String.toList_ofList.symm.trans hempty) hxs
  · rw [String.toList_ofList] at h hfirst
    obtain ⟨s, rest, hs⟩ := List.exists_cons_of_ne_nil (splitSlash_ne_nil xs)
    rw [hs] at h hfirst
    have hcut := splitSlash_append_slash xs ys
    rw [← hlong, hs, List.cons_append] at hcut
    rw [components, components, h, opening_of_isSilent_eq_false hcut (hfirst s rfl),
      ← List.cons_append, List.filterMap_append]
    rfl

/-! ### Absolute and relative paths -/

/-- The root is where an absolute path starts, and nowhere else. -/
theorem components_of_isAbsolute {p : Path} (hp : p.isAbsolute = true) :
    ∃ steps, p.components = .root :: steps ∧ .root ∉ steps := by
  obtain ⟨cs, htext⟩ : ∃ cs, p.text.toList = '/' :: cs :=
    List.head?_eq_some_iff.mp (beq_iff_eq.mp hp)
  refine ⟨(splitSlash cs).filterMap component?, ?_, fun hroot => ?_⟩
  · rw [components, opening, htext]
    rfl
  · obtain ⟨s, -, hs⟩ := List.mem_filterMap.mp hroot
    exact component?_ne_root s hs

/-- The components of a **relative path** are those of its segments. One that starts in the current
directory says so. -/
theorem components_of_relative {p : Path} (hp : p.isAbsolute = false) :
    p.components = (splitSlash p.text.toList).filterMap component? ∨
      p.components = .current :: (splitSlash p.text.toList).filterMap component? := by
  rcases opening_cases p with ⟨rest, htext, -⟩ | ⟨htext, h⟩ | ⟨rest, htext, h⟩ | ⟨h, -⟩
  · rw [isAbsolute, htext] at hp
    cases hp
  · rw [components, h, htext]
    exact .inr rfl
  · rw [components, h, htext]
    exact .inr rfl
  · rw [components, h]
    exact .inl rfl

/-- A relative path does not go through the root. -/
theorem root_not_mem_components {p : Path} (hp : p.isAbsolute = false) : .root ∉ p.components := by
  have hsegments : .root ∉ (splitSlash p.text.toList).filterMap component? := by
    intro hroot
    obtain ⟨s, -, hs⟩ := List.mem_filterMap.mp hroot
    exact component?_ne_root s hs
  rcases components_of_relative hp with h | h <;> rw [h]
  · exact hsegments
  · exact List.not_mem_cons_of_ne_of_not_mem (by simp) hsegments

/-! ### Going on from a path -/

/-- What stands between a path and what goes on from it. -/
def separator (p : Path) : List Char :=
  if p.text.toList.getLast?.all (· == '/') then [] else ['/']

/-- The text of a path that goes on. -/
theorem toList_join (p : Path) {q : Path} (hq : q.isAbsolute = false) :
    (p.join q).text.toList = p.text.toList ++ p.separator ++ q.text.toList := by
  rw [join, hq, separator]
  by_cases hlast : p.text.toList.getLast?.all (· == '/')
  · simp [hlast]
  · simp [hlast]

/-- Two paths with the same characters are the same. -/
theorem ext_toList {p q : Path} (h : p.text.toList = q.text.toList) : p = q :=
  congrArg Path.mk (String.toList_inj.mp h)

/-- A path that goes on with a relative path is absolute only if it was before. -/
theorem isAbsolute_join {q r : Path} (hq : q.isAbsolute = false) (hr : r.isAbsolute = false) :
    (q.join r).isAbsolute = false := by
  rw [isAbsolute, toList_join q hr]
  cases htext : q.text.toList with
  | nil =>
      rw [separator, htext]
      exact hr
  | cons c cs =>
      rw [isAbsolute, htext] at hq
      exact hq

/-- **Going on is associative**, but for absolute paths. -/
theorem join_assoc (p : Path) {q r : Path} (hq : q.isAbsolute = false)
    (hr : r.isAbsolute = false) : (p.join q).join r = p.join (q.join r) := by
  have hseparator : q.text.toList ++ (p.join q).separator = q.text.toList ++ q.separator := by
    rw [separator, separator, toList_join p hq]
    cases htext : q.text.toList with
    | nil =>
        -- The separator behind `p` makes any further one needless.
        rw [separator]
        by_cases hlast : p.text.toList.getLast?.all (· == '/')
        · simp [hlast]
        · simp [hlast]
    | cons c cs => simp [List.getLast?_cons]
  refine ext_toList ?_
  rw [toList_join _ hr, toList_join p hq, toList_join p (isAbsolute_join hq hr), toList_join q hr]
  simp only [List.append_assoc]
  rw [← List.append_assoc q.text.toList, hseparator, List.append_assoc]

/-- What follows the separator of a path goes behind its components. -/
theorem components_append_separator {xs : List Char} (hxs : xs ≠ []) (ys : List Char) :
    components ⟨String.ofList (xs ++ separator ⟨String.ofList xs⟩ ++ ys)⟩
      = components ⟨String.ofList xs⟩ ++ (splitSlash ys).filterMap component? := by
  rw [separator, String.toList_ofList]
  obtain ⟨front, c, rfl⟩ : ∃ front c, xs = front ++ [c] :=
    ⟨_, _, (List.dropLast_concat_getLast hxs).symm⟩
  rw [List.getLast?_concat]
  by_cases hc : c = '/'
  · subst hc
    rw [if_pos (by simp), List.append_nil, List.append_assoc, List.singleton_append]
    by_cases hfront : front = []
    · subst hfront
      rw [List.nil_append, List.nil_append, components, components, opening, opening,
        String.toList_ofList, String.toList_ofList]
      rfl
    · rw [components_append_slash hfront, components_append_slash hfront]
      simp [splitSlash, component?]
  · rw [if_neg (by simpa using hc), List.append_assoc, List.singleton_append,
      components_append_slash hxs]

/-- **Going on from a path** puts the components behind its own. -/
theorem components_join (p : Path) {q : Path} (hq : q.opening.1 = none) :
    (p.join q).components = p.components ++ q.components := by
  have hcomponents := components_of_fst_eq_none hq
  have habsolute : q.isAbsolute = false := by
    refine isAbsolute_eq_false fun hroot => ?_
    rw [hcomponents] at hroot
    obtain ⟨s, -, hs⟩ := List.mem_filterMap.mp hroot
    exact component?_ne_root s hs
  have hjoin : p.join q = ⟨String.ofList (p.text.toList ++ p.separator ++ q.text.toList)⟩ :=
    ext_toList ((toList_join p habsolute).trans String.toList_ofList.symm)
  obtain ⟨xs, rfl⟩ : ∃ xs, p = ⟨String.ofList xs⟩ :=
    ⟨p.text.toList, ext_toList String.toList_ofList.symm⟩
  rw [hjoin, String.toList_ofList]
  by_cases hxs : xs = []
  · subst hxs
    have hempty : q = ⟨String.ofList q.text.toList⟩ := ext_toList String.toList_ofList.symm
    exact congrArg components hempty.symm
  · rw [components_append_separator hxs, hcomponents]

/-- Going on with a name puts it behind the components. -/
theorem components_join_name (p : Path) {n : String} (hn : IsName n) :
    (p.join ⟨n⟩).components = p.components ++ [.name n] := by
  have hname := components_name hn
  have hstart : (opening ⟨n⟩).1 = none := opening_fst_eq_none (hname.trans List.map_singleton.symm)
  rw [components_join p hstart, hname]

/-- A path put together from names does not end in a slash. -/
theorem separator_ofNames {names : List String} (hne : names ≠ [])
    (hnames : ∀ n ∈ names, IsName n) : (ofNames names).separator = ['/'] := by
  obtain ⟨front, n, rfl⟩ : ∃ front n, names = front ++ [n] :=
    ⟨_, _, (List.dropLast_concat_getLast hne).symm⟩
  have hname := hnames n (List.mem_append_right _ List.mem_cons_self)
  have hn : n.toList ≠ [] := hname.ordinary.1
  have hlast : (ofNames (front ++ [n])).text.toList.getLast? = some (n.toList.getLast hn) := by
    rw [toList_ofNames, List.map_append, List.map_singleton]
    by_cases hfront : front.map String.toList = []
    · rw [hfront]
      exact List.getLast?_eq_some_getLast hn
    · rw [joinSlash_concat hfront, List.getLast?_append, List.getLast?_cons,
        List.getLast?_eq_some_getLast hn]
      rfl
  have hchar : n.toList.getLast hn ≠ '/' := fun h => hname.noSlash (h ▸ List.getLast_mem hn)
  rw [separator, hlast, if_neg (by simpa using hchar)]

/-- **Going on from names put together** puts one more behind them. -/
theorem join_ofNames {names : List String} {last : String} (hnames : ∀ n ∈ names, IsName n)
    (hlast : IsName last) : (ofNames names).join ⟨last⟩ = ofNames (names ++ [last]) := by
  have habsolute : isAbsolute ⟨last⟩ = false :=
    isAbsolute_eq_false (by simp [components_name hlast])
  refine ext_toList ?_
  rw [toList_join _ habsolute]
  by_cases hne : names = []
  · subst hne
    exact String.toList_ofList.symm
  · rw [separator_ofNames hne hnames, toList_ofNames, toList_ofNames, List.map_append,
      List.map_singleton, joinSlash_concat (mt List.map_eq_nil_iff.mp hne), List.append_assoc,
      List.singleton_append]

/-! ### Cutting a path short -/

/-- Segments that start with one that says something, as a path. -/
theorem components_ofOpening_none {body : List Segment} (hslash : ∀ s ∈ body, '/' ∉ s)
    (hfirst : ∀ s ∈ body.head?, isSilent s = false) :
    (ofOpening (none, body)).components = body.filterMap component? := by
  cases body with
  | nil => rfl
  | cons s rest =>
      have hcut : splitSlash (ofOpening (none, s :: rest)).text.toList = s :: rest := by
        rw [ofOpening, String.toList_ofList, splitSlash_joinSlash (by simp) hslash]
      rw [components, opening_of_isSilent_eq_false hcut (hfirst s rfl)]
      rfl

/-- Segments behind the root, as a path. -/
theorem components_ofOpening_root {body : List Segment} (hslash : ∀ s ∈ body, '/' ∉ s) :
    (ofOpening (some .root, body)).components = .root :: body.filterMap component? := by
  rw [components, opening, ofOpening, String.toList_ofList, ← filterMap_splitSlash_joinSlash hslash]
  rfl

/-- Segments behind the current directory, as a path. -/
theorem components_ofOpening_current {body : List Segment} (hslash : ∀ s ∈ body, '/' ∉ s) :
    (ofOpening (some .current, body)).components = .current :: body.filterMap component? := by
  cases body with
  | nil => rfl
  | cons s rest =>
      have htext : (ofOpening (some .current, s :: rest)).text.toList
          = '.' :: '/' :: joinSlash (s :: rest) := String.toList_ofList
      rw [components, opening, htext, ← filterMap_splitSlash_joinSlash hslash]
      rfl

/-- **Without its silent end** a path has the same components. -/
theorem components_drop_zero (p : Path) : (p.drop 0).components = p.components := by
  have hslash : ∀ s ∈ trimRight p.opening.2, '/' ∉ s := fun s hs hc =>
    (mem_of_mem_opening ((trimRight_isPrefix _).subset hs) hc).1 rfl
  rw [drop, components.eq_def p, ← filterMap_trimRight p.opening.2]
  rcases opening_cases p with ⟨_, -, h⟩ | ⟨-, h⟩ | ⟨_, -, h⟩ | ⟨h, hempty | hfirst⟩
  · rw [h] at hslash ⊢
    exact components_ofOpening_root hslash
  · rw [h] at hslash ⊢
    exact components_ofOpening_current hslash
  · rw [h] at hslash ⊢
    exact components_ofOpening_current hslash
  · rw [h, hempty]
    rfl
  · rw [h] at hslash ⊢
    have hfirst' := isSilent_head?_of_isPrefix (trimRight_isPrefix _) hfirst
    exact components_ofOpening_none hslash hfirst'

/-- Segments without the silent ones at both ends, as a path. -/
theorem components_trimSilent {body : List Segment} (hslash : ∀ s ∈ body, '/' ∉ s) :
    (ofOpening (none, trimSilent body)).components = body.filterMap component? := by
  have hfirst : ∀ s ∈ (body.dropWhile isSilent).head?, isSilent s = false := by
    intro s hs
    have hnot := List.head?_dropWhile_not isSilent body
    rw [Option.mem_def.mp hs] at hnot
    exact hnot
  have hfirst' := isSilent_head?_of_isPrefix (trimRight_isPrefix _) hfirst
  rw [trimSilent, components_ofOpening_none _ hfirst', filterMap_trimRight,
    filterMap_dropWhile_isSilent]
  intro s hs
  exact hslash s ((List.dropWhile_suffix _).subset ((trimRight_isPrefix _).subset hs))

/-- **Behind a number of components** a path has the others. -/
theorem components_drop (p : Path) (n : Nat) : (p.drop n).components = p.components.drop n := by
  have hslash (m : Nat) : ∀ s ∈ dropComponents m p.opening.2, '/' ∉ s := fun s hs hc =>
    (mem_of_mem_opening ((dropComponents_suffix _ _).subset hs) hc).1 rfl
  cases n with
  | zero => exact components_drop_zero p
  | succ n =>
      rw [drop, components.eq_def p]
      rcases hopening : p.opening with ⟨_ | start, body⟩ <;> rw [hopening] at hslash
      · change (ofOpening (none, trimSilent (dropComponents (n + 1) body))).components = _
        rw [components_trimSilent (hslash (n + 1)), filterMap_dropComponents]
        rfl
      · change (ofOpening (none, trimSilent (dropComponents n body))).components = _
        rw [components_trimSilent (hslash n), filterMap_dropComponents]
        rfl

/-- **A base can be taken away** exactly if the path goes through its components, and what
follows are the components behind them. -/
theorem exists_stripBase?_iff {p base : Path} {steps : List Component} :
    (∃ q, p.stripBase? base = some q ∧ q.components = steps) ↔
      p.components = base.components ++ steps := by
  constructor
  · rintro ⟨q, hq, rfl⟩
    by_cases hbase : base.components.isPrefixOf p.components = true
    · rw [stripBase?, if_pos hbase] at hq
      obtain rfl : p.drop base.components.length = q := Option.some.inj hq
      obtain ⟨rest, hrest⟩ := List.isPrefixOf_iff_prefix.mp hbase
      rw [components_drop, ← hrest, List.drop_left]
    · rw [stripBase?, if_neg hbase] at hq
      cases hq
  · intro hp
    have hbase : base.components.isPrefixOf p.components = true :=
      List.isPrefixOf_iff_prefix.mpr ⟨steps, hp.symm⟩
    refine ⟨p.drop base.components.length, if_pos hbase, ?_⟩
    rw [components_drop, hp, List.drop_left]

/-! ### Going up -/

/-- **The parent of a path through names** leads through all of them but the last. -/
theorem exists_parent? {p : Path} {names : List String} {last : String}
    (hp : p.components = (names ++ [last]).map .name) :
    ∃ q, p.parent? = some q ∧ q.components = names.map .name := by
  have hstart := opening_fst_eq_none hp
  obtain ⟨hopening, hempty | hfirst⟩ := opening_of_fst_eq_none hstart
  · have hnone : (splitSlash []).filterMap component? = [] := rfl
    rw [components_of_fst_eq_none hstart, hempty, hnone] at hp
    exact absurd hp (by simp)
  rw [components_of_fst_eq_none hstart, List.map_append, ← filterMap_trimRight] at hp
  have hne : trimRight (splitSlash p.text.toList) ≠ [] := by
    intro hempty
    rw [hempty] at hp
    simp at hp
  obtain ⟨front, s, hfront⟩ : ∃ front s, trimRight (splitSlash p.text.toList) = front ++ [s] :=
    ⟨_, _, (List.dropLast_concat_getLast hne).symm⟩
  obtain ⟨c, hc⟩ : ∃ c, component? s = some c := by
    have hs := isSilent_last_trimRight hfront
    exact Option.isSome_iff_exists.mp (by simpa [isSilent] using hs)
  rw [hfront, List.filterMap_append, List.filterMap_cons_some hc] at hp
  have hnames := (List.append_inj' hp rfl).1
  refine ⟨ofOpening (none, trimRight front), ?_, ?_⟩
  · rw [parent?, hopening]
    simp [hfront, dropLastComponent]
  · have hbase : front <+: splitSlash p.text.toList :=
      (List.prefix_append front [s]).trans (hfront ▸ trimRight_isPrefix _)
    have hfirst' := isSilent_head?_of_isPrefix ((trimRight_isPrefix _).trans hbase) hfirst
    rw [components_ofOpening_none _ hfirst', filterMap_trimRight, hnames]
    intro t ht
    exact slash_not_mem_of_mem_splitSlash (hbase.subset ((trimRight_isPrefix _).subset ht))

/-- **The parent of names put together** is the path through all of them but the last. -/
theorem parent?_ofNames {names : List String} {last : String}
    (hnames : ∀ n ∈ names ++ [last], IsName n) :
    (ofNames (names ++ [last])).parent? = some (ofNames names) := by
  have hstart := opening_fst_eq_none (components_ofNames hnames)
  have hcut := splitSlash_ofNames (by simp) hnames
  have htrim {front : List String} (hfront : front ⊆ names ++ [last]) :
      trimRight (front.map String.toList) = front.map String.toList := by
    refine trimRight_eq_self fun s hs => ?_
    obtain ⟨n, hn, rfl⟩ := List.mem_map.mp (List.mem_of_getLast? hs)
    exact (hnames n (hfront hn)).ordinary.isSilent_eq_false
  have hall := htrim (List.Subset.refl _)
  have hfront : dropLastComponent ((names ++ [last]).map String.toList)
      = names.map String.toList := by
    rw [dropLastComponent, hall, List.map_append, List.map_singleton, List.dropLast_concat,
      htrim (List.subset_append_left _ _)]
  rw [parent?, (opening_of_fst_eq_none hstart).1, hcut]
  simp only [hall, hfront]
  rw [if_neg (by simp)]
  rfl

/-! ### Names of files -/

/-- A path through names leads to the last one. -/
theorem fileName?_of_components {p : Path} {names : List String} {last : String}
    (hp : p.components = (names ++ [last]).map .name) : p.fileName? = some last := by
  rw [fileName?, hp, List.map_append, List.map_singleton, List.getLast?_concat]

/-- What a path leads to is a name. -/
theorem isName_of_fileName? {p : Path} {n : String} (hn : p.fileName? = some n) : IsName n := by
  rw [fileName?] at hn
  split at hn
  · next s hlast =>
    obtain rfl := Option.some.inj hn
    exact (isName_of_mem (List.mem_of_getLast? hlast)).1
  · cases hn

/-- **A path through names and one more segment** leads through the names, and on as the segment
says. -/
theorem components_ofNames_concat {above : List String} {s : String} (hne : above ≠ [])
    (habove : ∀ n ∈ above, IsName n) (hs : '/' ∉ s.toList) :
    (ofNames (above ++ [s])).components = above.map .name ++ (component? s.toList).toList := by
  have hfront : joinSlash (above.map String.toList) ≠ [] := by
    intro hempty
    have hnames := components_ofNames habove
    rw [ofNames, hempty] at hnames
    exact hne (List.map_eq_nil_iff.mp hnames.symm)
  rw [← components_ofNames habove, ofNames, List.map_append, List.map_singleton,
    joinSlash_concat (mt List.map_eq_nil_iff.mp hne), components_append_slash hfront,
    splitSlash_of_not_mem hs]
  cases hcomponent : component? s.toList <;> simp [hcomponent, ofNames]

/-- **Which paths end in no name**: of those through names and one more segment the ones that end
in `..`, or in `.` with nothing before it. -/
theorem fileName?_ofNames_concat_eq_none_iff {above : List String} {s : String}
    (habove : ∀ n ∈ above, IsName n) (hs : '/' ∉ s.toList) (hempty : s ≠ "") :
    (ofNames (above ++ [s])).fileName? = none ↔ s = ".." ∨ s = "." ∧ above = [] := by
  by_cases hordinary : IsOrdinary s.toList
  · -- The segment is a name itself.
    have hnames : ∀ n ∈ above ++ [s], IsName n :=
      List.forall_mem_append.mpr ⟨habove, List.forall_mem_singleton.mpr ⟨hordinary, hs⟩⟩
    rw [fileName?_of_components (components_ofNames hnames)]
    refine ⟨fun h => (nomatch h), ?_⟩
    rintro (rfl | ⟨rfl, -⟩)
    · exact absurd rfl hordinary.2.2
    · exact absurd rfl hordinary.2.1
  · have hdots : s = "." ∨ s = ".." := by
      by_cases hcurrent : s.toList = ['.']
      · exact .inl (String.toList_inj.mp hcurrent)
      · refine .inr (String.toList_inj.mp (Decidable.byContradiction fun hparent => hordinary ?_))
        exact ⟨mt String.toList_eq_nil_iff.mp hempty, hcurrent, hparent⟩
    rcases List.eq_nil_or_concat above with rfl | ⟨higher, n, rfl⟩
    · rcases hdots with rfl | rfl <;> decide
    · rw [List.concat_eq_append] at habove ⊢
      have hcomponents := components_ofNames_concat (by simp) habove hs
      rcases hdots with rfl | rfl
      · -- Nothing is said behind the last name.
        have hcurrent : component? ".".toList = none := by decide
        rw [hcurrent, Option.toList_none, List.append_nil] at hcomponents
        rw [fileName?_of_components hcomponents]
        simp
      · have hparent : component? "..".toList = some .parent := by decide
        rw [fileName?, hcomponents, hparent, Option.toList_some, List.getLast?_concat]
        simp

end DelphiUnits.Path

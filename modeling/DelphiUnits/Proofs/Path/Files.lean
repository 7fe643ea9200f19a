import DelphiUnits.Proofs.Path.Components

/-!
# Paths to files

A file is written at a path that goes on from a directory with the name of the file. The text of
such a path ends in the name, so its last segment is the name, and going up from it leads back to
the directory: to the same components, if not always to the same text.

## Main results

* `exists_splitSlash_join`: a path that goes on with a name ends in it;
* `exists_parent?_concat`: going up from a path that ends in a name;
* `components_joinNames`: going on through several names;
* `components_withSlashes`: slashes at the end.
-/

namespace DelphiUnits.Path

/-! ### Segments -/

/-- **Segments of a text** that are put together again give the text. -/
theorem joinSlash_splitSlash (cs : List Char) : joinSlash (splitSlash cs) = cs := by
  induction cs with
  | nil => rfl
  | cons c cs ih =>
      by_cases hc : c = '/'
      · subst hc
        obtain ⟨s, rest, hs⟩ := List.exists_cons_of_ne_nil (splitSlash_ne_nil cs)
        rw [splitSlash, if_pos rfl, hs, joinSlash, ← hs, ih]
        · rfl
        · simp
      · obtain ⟨s, rest, hs, hcut⟩ := splitSlash_cons hc cs
        rw [hs] at ih
        rw [hcut, ← ih]
        cases rest <;> rfl

/-- Fewer segments at the front are put together to less text at the front. -/
theorem joinSlash_isPrefix {front body : List Segment} (h : front <+: body) :
    joinSlash front <+: joinSlash body := by
  obtain ⟨rest, rfl⟩ := h
  induction front with
  | nil => exact List.nil_prefix
  | cons s front ih =>
      cases front with
      | nil =>
          cases rest with
          | nil => exact List.prefix_rfl
          | cons t rest => exact List.prefix_append s _
      | cons t front =>
          have htail := (List.prefix_append_right_inj (s ++ ['/'])).mpr ih
          simpa [joinSlash] using htail

/-- What stands at the end of a text behind a slash, or is all of it, is its last segment. -/
theorem exists_splitSlash_append {before file : List Char}
    (hbefore : ∀ c ∈ before.getLast?, c = '/') (hfile : '/' ∉ file) :
    ∃ front, splitSlash (before ++ file) = front ++ [file] := by
  rcases List.eq_nil_or_concat before with rfl | ⟨before, c, rfl⟩
  · exact ⟨[], splitSlash_of_not_mem hfile⟩
  · obtain rfl : c = '/' := hbefore c (by simp)
    refine ⟨splitSlash before, ?_⟩
    rw [List.concat_eq_append, List.append_assoc, List.singleton_append, splitSlash_append_slash,
      splitSlash_of_not_mem hfile]

/-! ### Going on with a name -/

/-- What stands before the name in a path that goes on with one ends in a slash, or is empty. -/
theorem getLast?_append_separator (p : Path) :
    ∀ c ∈ (p.text.toList ++ p.separator).getLast?, c = '/' := by
  intro c hc
  rw [separator] at hc
  by_cases hlast : p.text.toList.getLast?.all (· == '/')
  · rw [if_pos hlast, List.append_nil] at hc
    rw [Option.mem_def.mp hc] at hlast
    simpa using hlast
  · rw [if_neg hlast, List.getLast?_concat] at hc
    exact (Option.some.inj hc).symm

/-- A name is not absolute. -/
theorem isAbsolute_name {n : String} (hn : IsName n) : isAbsolute ⟨n⟩ = false :=
  isAbsolute_eq_false (by simp [components_name hn])

/-- A path that goes on with a name is as long as both and what stands between them. -/
theorem toList_join_name (p : Path) {n : String} (hn : IsName n) :
    (p.join ⟨n⟩).text.toList = p.text.toList ++ p.separator ++ n.toList :=
  toList_join p (isAbsolute_name hn)

/-- **A path that goes on with a name** has it as its last segment. -/
theorem exists_splitSlash_join (p : Path) {n : String} (hn : IsName n) :
    ∃ front, splitSlash (p.join ⟨n⟩).text.toList = front ++ [n.toList] := by
  rw [toList_join_name p hn]
  exact exists_splitSlash_append (getLast?_append_separator p) hn.noSlash

/-- **Going on through names** puts them behind the components. -/
theorem components_joinNames (p : Path) {names : List String} (hnames : ∀ n ∈ names, IsName n) :
    (p.joinNames names).components = p.components ++ names.map .name := by
  induction names generalizing p with
  | nil => exact (List.append_nil _).symm
  | cons n rest ih =>
      have hn := components_join_name p (hnames n List.mem_cons_self)
      have hrest := ih (p.join ⟨n⟩) fun m hm => hnames m (List.mem_cons_of_mem _ hm)
      rw [joinNames, List.foldl_cons, ← joinNames, hrest, hn, List.append_assoc]
      rfl

/-- Going on through names and then one more. -/
theorem joinNames_concat (p : Path) (names : List String) (last : String) :
    p.joinNames (names ++ [last]) = (p.joinNames names).join ⟨last⟩ := by
  rw [joinNames, List.foldl_append, ← joinNames]
  rfl

/-! ### Going up -/

/-- Fewer segments behind the start of a path, as a path: less text. -/
theorem toList_ofOpening_isPrefix {p : Path} {body : List Segment} (h : body <+: p.opening.2) :
    (ofOpening (p.opening.1, body)).text.toList <+: p.text.toList := by
  rcases opening_cases p with
    ⟨rest, htext, hp⟩ | ⟨htext, hp⟩ | ⟨rest, htext, hp⟩ | ⟨hp, -⟩ <;> rw [hp] at h ⊢
  · have hbody := joinSlash_isPrefix h
    rw [joinSlash_splitSlash] at hbody
    rw [ofOpening, String.toList_ofList, htext]
    exact List.cons_prefix_cons.mpr ⟨rfl, hbody⟩
  · obtain rfl : body = [] := List.prefix_nil.mp h
    rw [htext]
    exact List.prefix_rfl
  · have hbody := joinSlash_isPrefix h
    rw [joinSlash_splitSlash] at hbody
    rw [htext]
    cases body with
    | nil => exact ⟨'/' :: rest, by simp [ofOpening]⟩
    | cons s body =>
        rw [ofOpening, String.toList_ofList]
        · exact List.cons_prefix_cons.mpr ⟨rfl, List.cons_prefix_cons.mpr ⟨rfl, hbody⟩⟩
        · simp
        · simp
  · have hbody := joinSlash_isPrefix h
    rw [joinSlash_splitSlash] at hbody
    rw [ofOpening, String.toList_ofList]
    exact hbody

/-- Fewer segments behind the start of a path, as a path: the start and their components. -/
theorem components_ofOpening_isPrefix {p : Path} {body : List Segment} (h : body <+: p.opening.2) :
    (ofOpening (p.opening.1, body)).components
      = p.opening.1.toList ++ body.filterMap component? := by
  have hslash : ∀ s ∈ body, '/' ∉ s := fun s hs hc =>
    (mem_of_mem_opening (h.subset hs) hc).1 rfl
  rcases opening_cases p with ⟨_, -, hp⟩ | ⟨-, hp⟩ | ⟨_, -, hp⟩ | ⟨hp, hempty | hfirst⟩ <;>
    rw [hp] at h ⊢
  · exact components_ofOpening_root hslash
  · exact components_ofOpening_current hslash
  · exact components_ofOpening_current hslash
  · rw [hempty] at h
    rcases List.prefix_cons_iff.mp h with rfl | ⟨body, rfl, hbody⟩
    · rfl
    · obtain rfl : body = [] := List.prefix_nil.mp hbody
      rfl
  · exact components_ofOpening_none hslash (isSilent_head?_of_isPrefix h hfirst)

/-- **Going up from a path that ends in a name** takes the name away, and some of the text at the
end. -/
theorem exists_parent?_concat {p : Path} {steps : List Component} {last : String}
    (hp : p.components = steps ++ [.name last]) :
    ∃ q, p.parent? = some q ∧ q.components = steps ∧ q.text.toList <+: p.text.toList := by
  have hstart : p.opening.1 ≠ some (.name last) := by
    rcases opening_cases p with ⟨_, -, h⟩ | ⟨-, h⟩ | ⟨_, -, h⟩ | ⟨h, -⟩ <;> simp [h]
  have hne : trimRight p.opening.2 ≠ [] := by
    intro hempty
    rw [components, ← filterMap_trimRight, hempty, List.filterMap_nil, List.append_nil] at hp
    have hlast : .name last ∈ p.opening.1.toList := by rw [hp]; simp
    exact hstart (Option.mem_toList.mp hlast)
  obtain ⟨front, s, hfront⟩ : ∃ front s, trimRight p.opening.2 = front ++ [s] :=
    ⟨_, _, (List.dropLast_concat_getLast hne).symm⟩
  obtain ⟨c, hc⟩ : ∃ c, component? s = some c := by
    have hs := isSilent_last_trimRight hfront
    exact Option.isSome_iff_exists.mp (by simpa [isSilent] using hs)
  rw [components, ← filterMap_trimRight, hfront, List.filterMap_append,
    List.filterMap_cons_some hc, ← List.append_assoc] at hp
  have hsteps := (List.append_inj' hp rfl).1
  have hbase : trimRight front <+: p.opening.2 :=
    (trimRight_isPrefix front).trans
      ((List.prefix_append front [s]).trans (hfront ▸ trimRight_isPrefix _))
  refine ⟨ofOpening (p.opening.1, trimRight front), ?_, ?_, toList_ofOpening_isPrefix hbase⟩
  · rw [parent?]
    simp [hfront, dropLastComponent]
  · rw [components_ofOpening_isPrefix hbase, filterMap_trimRight, hsteps]

/-! ### Slashes at the end -/

/-- A path with slashes at its end. -/
def withSlashes (p : Path) (count : Nat) : Path :=
  ⟨p.text ++ String.ofList (List.replicate count '/')⟩

/-- Slashes alone are cut into segments that say nothing. -/
theorem filterMap_splitSlash_slashes (count : Nat) :
    (splitSlash (List.replicate count '/')).filterMap component? = [] := by
  induction count with
  | zero => rfl
  | succ count ih =>
      rw [List.replicate_succ, splitSlash, if_pos rfl, List.filterMap_cons_none rfl, ih]

/-- **Slashes at the end do not matter** for where a path leads. -/
theorem components_withSlashes {p : Path} (hp : p.text ≠ "") (count : Nat) :
    (p.withSlashes count).components = p.components := by
  cases count with
  | zero =>
      rw [withSlashes, List.replicate_zero, String.ofList_nil, String.append_empty]
  | succ count =>
      have hne : p.text.toList ≠ [] := mt String.toList_eq_nil_iff.mp hp
      have htext : p.text ++ String.ofList (List.replicate (count + 1) '/')
          = String.ofList (p.text.toList ++ '/' :: List.replicate count '/') := by
        rw [← String.toList_inj, String.toList_append, String.toList_ofList, String.toList_ofList,
          List.replicate_succ]
      rw [withSlashes, htext, components_append_slash hne, filterMap_splitSlash_slashes,
        List.append_nil, String.ofList_toList]

/-- They make it longer. -/
theorem utf8ByteSize_withSlashes (p : Path) (count : Nat) :
    (p.withSlashes count).text.utf8ByteSize = p.text.utf8ByteSize + count := by
  rw [withSlashes, String.utf8ByteSize_append]
  congr 1
  induction count with
  | zero => rfl
  | succ count ih =>
      have hlast : String.ofList (List.replicate (count + 1) '/')
          = String.ofList (List.replicate count '/') ++ "/" := by
        rw [← String.toList_inj, String.toList_append, String.toList_ofList, String.toList_ofList,
          List.replicate_succ']
        rfl
      rw [hlast, String.utf8ByteSize_append, ih]
      rfl

/-- What stands between a path and a name is a slash, if anything. -/
theorem eq_slash_of_mem_separator (p : Path) {c : Char} (hc : c ∈ p.separator) : c = '/' := by
  rw [separator] at hc
  split at hc
  · exact absurd hc List.not_mem_nil
  · exact List.mem_singleton.mp hc

/-- The size of a path that goes on with a name. -/
theorem utf8ByteSize_join (p : Path) {n : String} (hn : IsName n) :
    (p.join ⟨n⟩).text.utf8ByteSize
      = p.text.utf8ByteSize + (String.ofList p.separator).utf8ByteSize + n.utf8ByteSize := by
  have htext : (p.join ⟨n⟩).text = p.text ++ String.ofList p.separator ++ n := by
    rw [← String.toList_inj, toList_join_name p hn, String.toList_append, String.toList_append,
      String.toList_ofList]
  rw [htext, String.utf8ByteSize_append, String.utf8ByteSize_append]

/-- A path that goes on with a name is as long as both, at least. -/
theorem le_utf8ByteSize_join (p : Path) {n : String} (hn : IsName n) :
    p.text.utf8ByteSize + n.utf8ByteSize ≤ (p.join ⟨n⟩).text.utf8ByteSize := by
  rw [utf8ByteSize_join p hn]
  omega

/-- It is longer by a slash at most. -/
theorem utf8ByteSize_join_le (p : Path) {n : String} (hn : IsName n) :
    (p.join ⟨n⟩).text.utf8ByteSize ≤ p.text.utf8ByteSize + 1 + n.utf8ByteSize := by
  have hseparator : (String.ofList p.separator).utf8ByteSize ≤ 1 := by
    rw [separator]
    split <;> decide
  rw [utf8ByteSize_join p hn]
  omega

end DelphiUnits.Path

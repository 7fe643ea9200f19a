import DelphiUnits.Path

/-!
# Segments

Slashes cut the text of a path into segments. This module says how cutting and putting together
go with what stands before and behind in a text, which segments are left when a path is cut short
at its front or its end, and where a name is cut from its extension.

A segment is **ordinary** if it stands for a name: it is neither empty nor `.` nor `..`. Segments
that are empty or `.` are **silent**.

## Main results

* `splitSlash_append_slash`, `splitSlash_joinSlash`: where a text is cut;
* `component?_eq_name`: which segments stand for names;
* `filterMap_dropComponents`: which components are left behind others;
* `splitExtension_eq_some_iff`: where a name is cut.
-/

namespace DelphiUnits.Path

/-! ### Cutting and putting together -/

/-- Any text has a segment, an empty one if nothing else. -/
theorem splitSlash_ne_nil (cs : List Char) : splitSlash cs ≠ [] := by
  fun_cases splitSlash cs <;> simp

/-- A character that is no slash becomes part of the first segment. -/
theorem splitSlash_cons {c : Char} (hc : c ≠ '/') (cs : List Char) :
    ∃ s rest, splitSlash cs = s :: rest ∧ splitSlash (c :: cs) = (c :: s) :: rest := by
  obtain ⟨s, rest, hs⟩ := List.exists_cons_of_ne_nil (splitSlash_ne_nil cs)
  exact ⟨s, rest, hs, by rw [splitSlash, if_neg hc, hs]⟩

/-- **A text is cut at each of its slashes.** -/
theorem splitSlash_append_slash (xs ys : List Char) :
    splitSlash (xs ++ '/' :: ys) = splitSlash xs ++ splitSlash ys := by
  induction xs with
  | nil => rfl
  | cons c cs ih =>
      by_cases hc : c = '/'
      · subst hc
        simp only [List.cons_append, splitSlash, if_true, ih]
      · obtain ⟨s, rest, hs, hcut⟩ := splitSlash_cons hc cs
        have hlong : splitSlash (cs ++ '/' :: ys) = s :: (rest ++ splitSlash ys) := by
          rw [ih, hs, List.cons_append]
        rw [hcut, List.cons_append, splitSlash, if_neg hc, hlong, List.cons_append]

/-- A text without slashes is one segment. -/
theorem splitSlash_of_not_mem {s : Segment} (hs : '/' ∉ s) : splitSlash s = [s] := by
  induction s with
  | nil => rfl
  | cons c cs ih =>
      obtain ⟨hc, hcs⟩ := not_or.mp (mt List.mem_cons.mpr hs)
      rw [splitSlash, if_neg (Ne.symm hc), ih hcs]

/-- Characters behind a text that are no slashes become part of its last segment. -/
theorem splitSlash_append (xs : List Char) {ys : List Char} (hys : '/' ∉ ys) :
    ∃ front last, splitSlash xs = front ++ [last] ∧
      splitSlash (xs ++ ys) = front ++ [last ++ ys] := by
  induction xs with
  | nil => exact ⟨[], [], rfl, splitSlash_of_not_mem hys⟩
  | cons c cs ih =>
      obtain ⟨front, last, hcs, hcut⟩ := ih
      by_cases hc : c = '/'
      · subst hc
        refine ⟨[] :: front, last, ?_, ?_⟩
        · simp only [splitSlash, if_true, hcs, List.cons_append]
        · simp only [List.cons_append, splitSlash, if_true, hcut]
      · rw [List.cons_append, splitSlash, splitSlash, if_neg hc, if_neg hc, hcs, hcut]
        -- The character joins the last segment if there is no other.
        cases front with
        | nil => exact ⟨[], c :: last, rfl, rfl⟩
        | cons s front => exact ⟨(c :: s) :: front, last, rfl, rfl⟩

/-- What is before the last segment does not depend on the end of the text. -/
theorem dropLast_splitSlash_append (xs : List Char) {ys : List Char} (hys : '/' ∉ ys) :
    (splitSlash (xs ++ ys)).dropLast = (splitSlash xs).dropLast := by
  obtain ⟨front, last, hxs, hcut⟩ := splitSlash_append xs hys
  rw [hxs, hcut, List.dropLast_concat, List.dropLast_concat]

/-- Segments have no slashes in them, and only characters of the text. -/
theorem mem_of_mem_splitSlash {cs : List Char} {s : Segment} {c : Char}
    (hs : s ∈ splitSlash cs) (hc : c ∈ s) : c ≠ '/' ∧ c ∈ cs := by
  induction cs generalizing s with
  | nil =>
      obtain rfl : s = [] := List.mem_singleton.mp hs
      exact absurd hc List.not_mem_nil
  | cons x xs ih =>
      by_cases hx : x = '/'
      · subst hx
        rcases List.mem_cons.mp hs with rfl | hs
        · exact absurd hc List.not_mem_nil
        · exact ⟨(ih hs hc).1, List.mem_cons_of_mem _ (ih hs hc).2⟩
      · obtain ⟨first, rest, hxs, hcut⟩ := splitSlash_cons hx xs
        rw [hcut] at hs
        rw [hxs] at ih
        rcases List.mem_cons.mp hs with rfl | hs
        · rcases List.mem_cons.mp hc with rfl | hc
          · exact ⟨hx, List.mem_cons_self⟩
          · have hfirst := ih List.mem_cons_self hc
            exact ⟨hfirst.1, List.mem_cons_of_mem _ hfirst.2⟩
        · have hrest := ih (List.mem_cons_of_mem _ hs) hc
          exact ⟨hrest.1, List.mem_cons_of_mem _ hrest.2⟩

/-- A segment of a text has no slash in it. -/
theorem slash_not_mem_of_mem_splitSlash {cs : List Char} {s : Segment} (hs : s ∈ splitSlash cs) :
    '/' ∉ s :=
  fun hslash => (mem_of_mem_splitSlash hs hslash).1 rfl

/-- **Segments that are put together are cut apart again.** -/
theorem splitSlash_joinSlash {segments : List Segment} (hne : segments ≠ [])
    (hslash : ∀ s ∈ segments, '/' ∉ s) : splitSlash (joinSlash segments) = segments := by
  fun_induction joinSlash segments with
  | case1 => exact absurd rfl hne
  | case2 s => exact splitSlash_of_not_mem (hslash s List.mem_cons_self)
  | case3 s rest hrest ih =>
      have hfirst := splitSlash_of_not_mem (hslash s List.mem_cons_self)
      have hbehind := ih hrest fun t ht => hslash t (List.mem_cons_of_mem _ ht)
      rw [splitSlash_append_slash, hfirst, hbehind, List.singleton_append]

/-- The last of several segments goes behind a slash. -/
theorem joinSlash_concat {front : List Segment} (hfront : front ≠ []) (s : Segment) :
    joinSlash (front ++ [s]) = joinSlash front ++ '/' :: s := by
  fun_induction joinSlash front with
  | case1 => exact absurd rfl hfront
  | case2 t => rfl
  | case3 t rest hrest ih =>
      rw [List.cons_append, joinSlash, ih hrest, List.append_assoc, List.cons_append]
      simp

/-- What is put behind segments goes behind the last one. -/
theorem joinSlash_append_last (front : List Segment) (s t : List Char) :
    joinSlash (front ++ [s]) ++ t = joinSlash (front ++ [s ++ t]) := by
  by_cases hfront : front = []
  · subst hfront
    rfl
  · rw [joinSlash_concat hfront, joinSlash_concat hfront, List.append_assoc, List.cons_append]

/-- Replacing characters other than slashes does not change where a text is put together. -/
theorem map_joinSlash {f : Char → Char} (hf : f '/' = '/') (segments : List Segment) :
    (joinSlash segments).map f = joinSlash (segments.map (List.map f)) := by
  fun_induction joinSlash segments with
  | case1 => rfl
  | case2 s => rfl
  | case3 s rest hrest ih =>
      rw [List.map_append, List.map_cons, hf, ih, List.map_cons, joinSlash]
      exact mt List.map_eq_nil_iff.mp hrest

/-! ### Ordinary segments -/

/-- A segment that stands for a name. -/
def IsOrdinary (s : Segment) : Prop :=
  s ≠ [] ∧ s ≠ ['.'] ∧ s ≠ ['.', '.']

instance (s : Segment) : Decidable (IsOrdinary s) :=
  inferInstanceAs (Decidable (s ≠ [] ∧ s ≠ ['.'] ∧ s ≠ ['.', '.']))

/-- A segment of three characters or more is ordinary. -/
theorem IsOrdinary.of_length {s : Segment} (hs : 2 < s.length) : IsOrdinary s := by
  refine ⟨?_, ?_, ?_⟩ <;> rintro rfl <;> simp at hs

/-- A text that is a **name**: one ordinary segment. -/
structure IsName (n : String) : Prop where
  /-- It says where to go. -/
  ordinary : IsOrdinary n.toList
  /-- It is one segment. -/
  noSlash : '/' ∉ n.toList

/-- A name is no text that says nothing, nor one that leads up. -/
theorem IsName.ne_dots {n : String} (h : IsName n) : n ≠ "" ∧ n ≠ "." ∧ n ≠ ".." := by
  refine ⟨?_, ?_, ?_⟩ <;> rintro rfl
  · exact h.ordinary.1 rfl
  · exact h.ordinary.2.1 rfl
  · exact h.ordinary.2.2 rfl

/-- **Ordinary segments stand for names**, and no others do. -/
theorem component?_eq_name {s : Segment} {n : String} :
    component? s = some (.name n) ↔ IsOrdinary s ∧ String.ofList s = n := by
  fun_cases component? s with
  | case1 => simp [IsOrdinary]
  | case2 => simp [IsOrdinary]
  | case3 => simp [IsOrdinary]
  | case4 _ h₁ h₂ h₃ => simpa using fun _ => ⟨h₁, h₂, h₃⟩

/-- Empty segments and `.` say nothing, and no others. -/
theorem isSilent_iff {s : Segment} : isSilent s = true ↔ s = [] ∨ s = ['.'] := by
  rw [isSilent]
  fun_cases component? s with
  | case1 => simp
  | case2 => simp
  | case3 => simp
  | case4 _ h₁ h₂ h₃ => simpa using ⟨h₁, h₂⟩

/-- Ordinary segments say something. -/
theorem IsOrdinary.isSilent_eq_false {s : Segment} (hs : IsOrdinary s) : isSilent s = false :=
  Bool.eq_false_iff.mpr fun hsilent => (isSilent_iff.mp hsilent).elim hs.1 hs.2.1

/-- No segment behind the start of a path stands for the root. -/
theorem component?_ne_root (s : Segment) : component? s ≠ some .root := by
  fun_cases component? s <;> simp

/-- Ordinary names, as segments, stand for themselves. -/
theorem filterMap_component?_names {names : List String}
    (hnames : ∀ n ∈ names, IsOrdinary n.toList) :
    (names.map String.toList).filterMap component? = names.map .name := by
  induction names with
  | nil => rfl
  | cons n rest ih =>
      have hn := component?_eq_name.mpr ⟨hnames n List.mem_cons_self, String.ofList_toList⟩
      have hrest := ih fun m hm => hnames m (List.mem_cons_of_mem _ hm)
      rw [List.map_cons, List.filterMap_cons_some hn, hrest, List.map_cons]

/-! ### Silent segments -/

/-- Silent segments at the front do not matter. -/
theorem filterMap_dropWhile_isSilent (body : List Segment) :
    (body.dropWhile isSilent).filterMap component? = body.filterMap component? := by
  induction body with
  | nil => rfl
  | cons s rest ih =>
      by_cases hs : isSilent s = true
      · have hnone : component? s = none := Option.isNone_iff_eq_none.mp hs
        rw [List.dropWhile_cons_of_pos hs, ih, List.filterMap_cons_none hnone]
      · rw [List.dropWhile_cons_of_neg hs]

/-- Silent segments at the end do not matter. -/
theorem filterMap_trimRight (body : List Segment) :
    (trimRight body).filterMap component? = body.filterMap component? := by
  rw [trimRight, List.filterMap_reverse, filterMap_dropWhile_isSilent, List.filterMap_reverse,
    List.reverse_reverse]

/-- Segments are trimmed at their end only. -/
theorem trimRight_isPrefix (body : List Segment) : trimRight body <+: body := by
  have hsuffix := List.dropWhile_suffix (l := body.reverse) isSilent
  rw [trimRight, ← List.reverse_suffix, List.reverse_reverse]
  exact hsuffix

/-- Behind a number of components come the others. -/
theorem filterMap_dropComponents (n : Nat) (body : List Segment) :
    (dropComponents n body).filterMap component? = (body.filterMap component?).drop n := by
  fun_induction dropComponents n body with
  | case1 body => rfl
  | case2 n => rfl
  | case3 n s rest hs ih =>
      rw [ih, List.filterMap_cons_none (Option.isNone_iff_eq_none.mp hs)]
  | case4 n s rest hs ih =>
      obtain ⟨c, hc⟩ := Option.ne_none_iff_exists'.mp (mt Option.isNone_iff_eq_none.mpr hs)
      rw [ih, List.filterMap_cons_some hc, List.drop_succ_cons]

/-- Behind a number of components only segments of the path are left. -/
theorem dropComponents_suffix (n : Nat) (body : List Segment) : dropComponents n body <:+ body := by
  fun_induction dropComponents n body with
  | case1 body => exact List.suffix_refl body
  | case2 n => exact List.suffix_refl []
  | case3 n s rest hs ih => exact ih.trans (List.suffix_cons s rest)
  | case4 n s rest hs ih => exact ih.trans (List.suffix_cons s rest)

/-- Segments are trimmed up to one that says something. -/
theorem isSilent_last_trimRight {body front : List Segment} {s : Segment}
    (h : trimRight body = front ++ [s]) : isSilent s = false := by
  have hnot := List.head?_dropWhile_not isSilent body.reverse
  rw [← List.reverse_reverse (body.reverse.dropWhile isSilent), ← trimRight, h,
    List.reverse_concat] at hnot
  exact hnot

/-- Segments that end in one that says something are not trimmed. -/
theorem trimRight_eq_self {body : List Segment} (h : ∀ s ∈ body.getLast?, isSilent s = false) :
    trimRight body = body := by
  rw [trimRight]
  cases hrev : body.reverse with
  | nil => exact (List.reverse_eq_nil_iff.mp hrev).symm
  | cons s rest =>
      have hs : isSilent s = false := h s (by rw [← List.head?_reverse, hrev]; rfl)
      rw [List.dropWhile_cons_of_neg (by simp [hs]), ← hrev, List.reverse_reverse]

/-- The first segment stays the first if segments are cut off at the end. -/
theorem isSilent_head?_of_isPrefix {front body : List Segment} (hfront : front <+: body)
    (hfirst : ∀ s ∈ body.head?, isSilent s = false) :
    ∀ s ∈ front.head?, isSilent s = false := by
  intro s hs
  obtain ⟨rest, rfl⟩ := hfront
  refine hfirst s ?_
  rw [List.head?_append, Option.mem_def.mp hs]
  rfl

/-- Segments that are put together and cut apart again, also if there are none. -/
theorem filterMap_splitSlash_joinSlash {body : List Segment} (hslash : ∀ s ∈ body, '/' ∉ s) :
    (splitSlash (joinSlash body)).filterMap component? = body.filterMap component? := by
  cases body with
  | nil => rfl
  | cons s rest => rw [splitSlash_joinSlash (by simp) hslash]

/-! ### Extensions -/

/-- **The extension of a name** is what follows its last dot, unless that is at the very start. -/
theorem splitExtension_eq_some_iff {name stem e : List Char} :
    splitExtension name = (stem, some e) ↔ stem ≠ [] ∧ '.' ∉ e ∧ name = stem ++ '.' :: e := by
  have hsplit := List.takeWhile_append_dropWhile (l := name.reverse) (p := (· != '.'))
  constructor
  · intro h
    rw [splitExtension] at h
    cases hdrop : name.reverse.dropWhile (· != '.') with
    | nil => simp [hdrop] at h
    | cons c rest =>
        have hhead := List.head?_dropWhile_not (· != '.') name.reverse
        obtain rfl : c = '.' := by simpa [hdrop] using hhead
        cases rest with
        | nil => simp [hdrop] at h
        | cons x xs =>
            obtain ⟨rfl, rfl⟩ : (x :: xs).reverse = stem ∧
                (name.reverse.takeWhile (· != '.')).reverse = e := by
              simpa [hdrop] using h
            refine ⟨by simp, fun hdot => ?_, ?_⟩
            · have hall : (name.reverse.takeWhile (· != '.')).all (· != '.') = true :=
                List.all_takeWhile
              exact absurd (List.all_eq_true.mp hall '.' (List.mem_reverse.mp hdot)) (by decide)
            · rw [hdrop] at hsplit
              have hname := congrArg List.reverse hsplit
              rw [List.reverse_append, List.reverse_cons, List.reverse_reverse, List.append_assoc,
                List.singleton_append] at hname
              exact hname.symm
  · rintro ⟨hstem, he, rfl⟩
    have hbefore : ∀ c ∈ e.reverse, (c != '.') = true := fun c hc =>
      bne_iff_ne.mpr fun h => he (h ▸ List.mem_reverse.mp hc)
    have hreverse : (stem ++ '.' :: e).reverse = e.reverse ++ '.' :: stem.reverse := by
      rw [List.reverse_append, List.reverse_cons, List.append_assoc, List.singleton_append]
    rw [splitExtension, hreverse, List.dropWhile_append_of_pos hbefore,
      List.takeWhile_append_of_pos hbefore]
    obtain ⟨x, xs, hx⟩ := List.exists_cons_of_ne_nil (mt List.reverse_eq_nil_iff.mp hstem)
    obtain rfl : stem = (x :: xs).reverse := by rw [← hx, List.reverse_reverse]
    simp

end DelphiUnits.Path

import Mathlib
import DelphiUnits.Text.Identifier

/-!
# Identifiers in normal form

An identifier in normal form differs from what it was made of in letter case only, and has nothing
left to capitalize.

The case of a single letter is the library's matter. No single module of Mathlib brings those facts
in, so all of it is imported.

## Main results

* `sameIgnoringCase_normalizeIdentifier`: the normal form of a text is the text, up to letter case;
* `normalizeIdentifier_normalizeIdentifier`: a normal form is its own normal form;
* `getElem?_normalizeIdentifier`: what becomes of each character;
* `toUpper_eq_self_of_separator`: in a normal form no small letter follows a separator;
* `append_separator_inj`: a normal form can be told from what follows it behind a separator.
-/

namespace DelphiUnits.Text

/-- Capitals do not count up to letter case. -/
theorem map_toLower_capitalizeWords (inWord : Bool) (cs : List Char) :
    (capitalizeWords inWord cs).map Char.toLower = cs.map Char.toLower := by
  induction cs generalizing inWord with
  | nil => rfl
  | cons c cs ih =>
      rw [capitalizeWords, List.map_cons, List.map_cons, ih]
      cases inWord with
      | true => rfl
      | false => exact congrArg (· :: _) (Char.toLower_toUpper_eq_toLower c)

/-- **A name in normal form** is the same up to letter case. -/
theorem sameIgnoringCase_normalizeIdentifier (s : String) :
    sameIgnoringCase (normalizeIdentifier s) s = true := by
  rw [sameIgnoringCase, foldCase, foldCase, normalizeIdentifier, String.toList_ofList,
    map_toLower_capitalizeWords, beq_self_eq_true]

/-- A letter stays one when it is capitalized, so words end where they ended. -/
theorem isWordChar_toUpper (c : Char) : isWordChar c.toUpper = isWordChar c := by
  by_cases hlower : c.isLower = true
  · have halpha : c.isAlpha = true := by rw [Char.isAlpha, hlower, Bool.or_true]
    rw [isWordChar, isWordChar, Char.isAlphanum, Char.isAlphanum, Char.isAlpha_toUpper_eq_isAlpha,
      halpha]
    rfl
  · rw [Char.toUpper_eq_of_not_isLower hlower]

/-- Words that are capitalized stay as they are. -/
theorem capitalizeWords_capitalizeWords (inWord : Bool) (cs : List Char) :
    capitalizeWords inWord (capitalizeWords inWord cs) = capitalizeWords inWord cs := by
  induction cs generalizing inWord with
  | nil => rfl
  | cons c cs ih =>
      cases inWord with
      | true => exact congrArg (c :: ·) (ih _)
      | false =>
          simp only [capitalizeWords, Bool.false_eq_true, if_false, isWordChar_toUpper, ih,
            Char.toUpper_toUpper_eq_toUpper]

/-- **A normal form is its own normal form.** -/
@[simp] theorem normalizeIdentifier_normalizeIdentifier (s : String) :
    normalizeIdentifier (normalizeIdentifier s) = normalizeIdentifier s := by
  rw [normalizeIdentifier, normalizeIdentifier, String.toList_ofList,
    capitalizeWords_capitalizeWords]

/-! ### Separators -/

/-- Capitalizing changes no length. -/
@[simp] theorem length_capitalizeWords (inWord : Bool) (cs : List Char) :
    (capitalizeWords inWord cs).length = cs.length := by
  induction cs generalizing inWord with
  | nil => rfl
  | cons c cs ih => rw [capitalizeWords, List.length_cons, List.length_cons, ih]

/-- A normal form is empty only if the text is. -/
@[simp] theorem normalizeIdentifier_eq_empty_iff {s : String} :
    normalizeIdentifier s = "" ↔ s = "" := by
  rw [← String.toList_eq_nil_iff, ← String.toList_eq_nil_iff, normalizeIdentifier,
    String.toList_ofList, ← List.length_eq_zero_iff, length_capitalizeWords,
    List.length_eq_zero_iff]

/-- What follows a character is capitalized by that character alone. -/
theorem capitalizeWords_append_cons (inWord : Bool) (xs : List Char) (c : Char) (ys : List Char) :
    capitalizeWords inWord (xs ++ c :: ys)
      = capitalizeWords inWord (xs ++ [c]) ++ capitalizeWords (isWordChar c) ys := by
  induction xs generalizing inWord with
  | nil => rfl
  | cons x xs ih => rw [List.cons_append, capitalizeWords, ih, List.cons_append, capitalizeWords,
      List.cons_append]

/-- Whether characters **end inside a word**, so that what follows them does not start one. -/
def endsInWord (front : List Char) : Bool :=
  front.getLast?.any isWordChar

/-- What follows characters is capitalized by whether they end inside a word. -/
theorem capitalizeWords_append (front rest : List Char) :
    capitalizeWords false (front ++ rest)
      = capitalizeWords false front ++ capitalizeWords (endsInWord front) rest := by
  cases front using List.reverseRecOn with
  | nil => rfl
  | append_singleton front c =>
      rw [List.append_assoc, List.singleton_append, capitalizeWords_append_cons, endsInWord,
        List.getLast?_concat]
      rfl

/-- The characters of a normal form. -/
theorem toList_normalizeIdentifier (s : String) :
    (normalizeIdentifier s).toList = capitalizeWords false s.toList :=
  String.toList_ofList

/-- **What becomes of a character**: it is a capital outside of words, and stays inside. -/
theorem getElem?_normalizeIdentifier {s : String} {front rest : List Char} {c : Char}
    (h : s.toList = front ++ c :: rest) :
    (normalizeIdentifier s).toList[front.length]?
      = some (if endsInWord front then c else c.toUpper) := by
  have hlength := length_capitalizeWords false front
  rw [toList_normalizeIdentifier, h, capitalizeWords_append,
    List.getElem?_append_right (Nat.le_of_eq hlength), hlength, Nat.sub_self]
  rfl

/-- **No word of a normal form starts with a small letter.** -/
theorem toUpper_eq_self_of_not_endsInWord {n : String} {front rest : List Char} {c : Char}
    (hn : normalizeIdentifier n = n) (htext : n.toList = front ++ c :: rest)
    (hfront : endsInWord front = false) : c.toUpper = c := by
  have hcapital := getElem?_normalizeIdentifier htext
  rw [hn, htext, hfront, List.getElem?_append_right (Nat.le_refl _), Nat.sub_self] at hcapital
  exact (Option.some.inj hcapital).symm

/-- **No small letter follows a separator** in a normal form. -/
theorem toUpper_eq_self_of_separator {n : String} {xs ys : List Char} {c d : Char}
    (hn : normalizeIdentifier n = n) (htext : n.toList = xs ++ c :: d :: ys)
    (hc : isWordChar c = false) : d.toUpper = d := by
  rw [List.append_cons xs c (d :: ys)] at htext
  refine toUpper_eq_self_of_not_endsInWord hn htext ?_
  rw [endsInWord, List.getLast?_concat]
  exact hc

/-- A small letter is part of a word. -/
theorem isWordChar_of_toUpper_ne {c : Char} (hc : c.toUpper ≠ c) : isWordChar c = true := by
  have hlower : c.isLower = true := by
    by_contra hnot
    exact hc (Char.toUpper_eq_of_not_isLower hnot)
  rw [isWordChar, Char.isAlphanum, Char.isAlpha, hlower]
  simp

/-- **A name in normal form cannot reach into a separator** with a small letter behind it: where it
is longer than what stands before the separator in a text, it would have the small letter behind
the separator as well. -/
theorem eq_nil_of_append_separator {n : String} {front extra separator s t : List Char} {x y : Char}
    (hn : normalizeIdentifier n = n) (hname : n.toList = front ++ extra) (hne : separator ≠ [])
    (hseparator : separator.any isWordChar = false) (hx : x.toUpper ≠ x)
    (h : separator ++ x :: s = extra ++ (separator ++ y :: t)) : extra = [] := by
  have hnot : x ∉ separator := fun hmem =>
    List.any_eq_false.mp hseparator x hmem (isWordChar_of_toUpper_ne hx)
  rcases List.append_eq_append_iff.mp h with ⟨more, rfl, hletter⟩ | ⟨less, hless, hletter⟩
  · cases more with
    | nil =>
        -- The letter would be the first character of the separator.
        obtain ⟨c, cs, rfl⟩ := List.exists_cons_of_ne_nil hne
        obtain rfl : x = c := (List.cons.inj hletter).1
        exact absurd List.mem_cons_self hnot
    | cons z more =>
        obtain rfl : x = z := (List.cons.inj hletter).1
        obtain ⟨before, c, rfl⟩ : ∃ before c, separator = before ++ [c] :=
          ⟨_, _, (List.dropLast_concat_getLast hne).symm⟩
        have htext : n.toList = (front ++ before) ++ c :: x :: more := by
          rw [hname]
          simp only [List.append_assoc, List.singleton_append]
        have hc := List.any_eq_false.mp hseparator c (List.mem_append_right _ List.mem_cons_self)
        exact absurd (toUpper_eq_self_of_separator hn htext (Bool.eq_false_iff.mpr hc)) hx
  · rcases List.append_eq_append_iff.mp hletter with ⟨more, hmore, -⟩ | ⟨rest, hrest, hletter'⟩
    · -- The separator would be shorter than a part of itself.
      have hlength := congrArg List.length hless
      rw [hmore, List.length_append, List.length_append] at hlength
      exact List.eq_nil_of_length_eq_zero (by omega)
    · cases rest with
      | nil =>
          rw [hrest, List.append_nil] at hless
          exact List.self_eq_append_left.mp hless
      | cons z rest =>
          -- The letter would be inside the separator.
          obtain rfl : x = z := (List.cons.inj hletter').1
          rw [hrest] at hnot
          exact absurd (List.mem_append_right _ List.mem_cons_self) hnot

/-- **A name in normal form can be told from what follows it**, if that is a separator with a small
letter behind it. -/
theorem append_separator_inj {n m : String} {separator s t : List Char} {x y : Char}
    (hn : normalizeIdentifier n = n) (hm : normalizeIdentifier m = m) (hne : separator ≠ [])
    (hseparator : separator.any isWordChar = false) (hx : x.toUpper ≠ x) (hy : y.toUpper ≠ y)
    (h : n.toList ++ (separator ++ x :: s) = m.toList ++ (separator ++ y :: t)) :
    n = m ∧ x :: s = y :: t := by
  have hname : n.toList = m.toList := by
    rcases List.append_eq_append_iff.mp h with ⟨extra, hextra, hrest⟩ | ⟨extra, hextra, hrest⟩
    · rw [hextra, eq_nil_of_append_separator hm hextra hne hseparator hx hrest, List.append_nil]
    · rw [hextra, eq_nil_of_append_separator hn hextra hne hseparator hy hrest, List.append_nil]
  rw [hname] at h
  exact ⟨String.toList_inj.mp hname, List.append_cancel_left (List.append_cancel_left h)⟩

end DelphiUnits.Text

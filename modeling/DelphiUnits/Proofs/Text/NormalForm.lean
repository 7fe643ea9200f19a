import DelphiUnits.Proofs.Text.Identifier
import DelphiUnits.ReservedWords

/-!
# Laws of normal forms

A normal form is made in one pass, which remembers of the characters it has passed only whether it is
inside a word. So what becomes of a character depends on the character in front of it and on nothing
else.

Whatever else is done to names does not interfere with this. A text may be cut at any separator and
its parts brought into normal form on their own. Separators may be replaced by others before or
after. Whether a name is reserved may be asked before or after as well.

## Main results

* `normalizeIdentifier_append_separator`: a text is brought into normal form part by part;
* `normalizeIdentifier_dotted`: dots may be put for slashes before or after;
* `ReservedWords.contains_normalizeIdentifier`: a normal form is reserved exactly if the name is;
* `normalizeIdentifier_capitalizes_words`: these together, with what a normal form is.
-/

namespace DelphiUnits

/-- **A normal form is reserved** exactly if the name is. -/
theorem ReservedWords.contains_normalizeIdentifier (r : ReservedWords) (name : String) :
    r.contains (Text.normalizeIdentifier name) = r.contains name := by
  have hfold : Text.foldCase (Text.normalizeIdentifier name) = Text.foldCase name :=
    beq_iff_eq.mp (Text.sameIgnoringCase_normalizeIdentifier name)
  simp only [contains, Text.sameIgnoringCase, hfold]

namespace Text

/-! ### Separators -/

/-- A separator has no capital. -/
theorem toUpper_eq_self_of_not_isWordChar {c : Char} (hc : isWordChar c = false) : c.toUpper = c := by
  by_contra hne
  rw [isWordChar_of_toUpper_ne hne] at hc
  cases hc

/-- **A text is brought into normal form part by part**, wherever a separator stands. -/
theorem normalizeIdentifier_append_separator (a b : String) {c : Char} (hc : isWordChar c = false) :
    normalizeIdentifier (a ++ String.singleton c ++ b)
      = normalizeIdentifier a ++ String.singleton c ++ normalizeIdentifier b := by
  rw [← String.toList_inj]
  simp only [String.toList_append, String.toList_singleton, toList_normalizeIdentifier,
    List.append_assoc, List.singleton_append, capitalizeWords_append, capitalizeWords, hc,
    toUpper_eq_self_of_not_isWordChar hc, ite_self]

/-- A text with a dot for every slash. -/
def dotted (s : String) : String :=
  s.map fun c => if c = '/' then '.' else c

/-- Characters may be replaced before or after words are capitalized, by a replacement that changes
neither where words start nor what their capitals are. -/
theorem capitalizeWords_map {f : Char → Char} (hword : ∀ c, isWordChar (f c) = isWordChar c)
    (hupper : ∀ c, (f c).toUpper = f c.toUpper) (inWord : Bool) (cs : List Char) :
    capitalizeWords inWord (cs.map f) = (capitalizeWords inWord cs).map f := by
  induction cs generalizing inWord with
  | nil => rfl
  | cons c cs ih =>
      rw [List.map_cons, capitalizeWords, capitalizeWords, List.map_cons, ih, hword, hupper,
        apply_ite f]

/-- **Dots may be put for slashes** before or after. -/
theorem normalizeIdentifier_dotted (s : String) :
    normalizeIdentifier (dotted s) = dotted (normalizeIdentifier s) := by
  rw [← String.toList_inj, toList_normalizeIdentifier, dotted, dotted, String.toList_map,
    String.toList_map, toList_normalizeIdentifier]
  apply capitalizeWords_map
  · intro c
    split_ifs with hc
    · rw [hc]
      rfl
    · rfl
  · intro c
    by_cases hc : c = '/'
    · rw [hc]
      rfl
    · -- No other character has a slash for its capital, since a letter has a letter.
      have hupper : c.toUpper ≠ '/' := by
        intro hslash
        have hword := isWordChar_toUpper c
        rw [hslash] at hword
        exact hc ((toUpper_eq_self_of_not_isWordChar hword.symm).symm.trans hslash)
      rw [if_neg hc, if_neg hupper]

/-- **A normal form has a capital at the start of every word**, and is the text otherwise. It has the
characters of the text up to letter case, and is its own normal form. No small letter stands at its
start or behind a separator, and what stands behind a word character is as it was. It is made of the
normal forms of the parts on both sides of any separator. Putting dots for slashes may come before or
after, and so may the question whether a name is reserved. -/
theorem normalizeIdentifier_capitalizes_words (s : String) :
    sameIgnoringCase (normalizeIdentifier s) s = true ∧
    normalizeIdentifier (normalizeIdentifier s) = normalizeIdentifier s ∧
    (∀ front c rest, (normalizeIdentifier s).toList = front ++ c :: rest →
      endsInWord front = false → c.isLower = false) ∧
    (∀ front c rest, s.toList = front ++ c :: rest →
      endsInWord front = true → (normalizeIdentifier s).toList[front.length]? = some c) ∧
    (∀ a c b, s = a ++ String.singleton c ++ b → isWordChar c = false →
      normalizeIdentifier s
        = normalizeIdentifier a ++ String.singleton c ++ normalizeIdentifier b) ∧
    normalizeIdentifier (dotted s) = dotted (normalizeIdentifier s) ∧
    ∀ r : ReservedWords, r.contains (normalizeIdentifier s) = r.contains s := by
  refine ⟨sameIgnoringCase_normalizeIdentifier s, normalizeIdentifier_normalizeIdentifier s,
    ?_, ?_, ?_, normalizeIdentifier_dotted s, ?_⟩
  · -- The character is the capital of itself, and a capital is no small letter.
    intro front c rest h hfront
    have hself := toUpper_eq_self_of_not_endsInWord (normalizeIdentifier_normalizeIdentifier s) h
      hfront
    rw [← hself, Char.isLower_toUpper_eq_false]
  · intro front c rest h hfront
    rw [getElem?_normalizeIdentifier h, if_pos hfront]
  · intro a c b h hc
    rw [h, normalizeIdentifier_append_separator a b hc]
  · intro r
    exact r.contains_normalizeIdentifier s

/-- Three words behind each other, the last one behind a letter that is no word character. -/
def slashedName : String :=
  "end/my_unit.éclair"

/-- The words of the name start with capitals, and its dots and slashes stay what they are. -/
theorem normalizeIdentifier_slashedName :
    normalizeIdentifier slashedName = "End/My_unit.éClair" ∧
      normalizeIdentifier slashedName
        = normalizeIdentifier "end" ++ String.singleton '/' ++ normalizeIdentifier "my_unit.éclair" ∧
      'C'.isLower = false ∧ (normalizeIdentifier slashedName).toList[8]? = some 'n' ∧
      normalizeIdentifier (dotted slashedName) = dotted "End/My_unit.éClair" ∧
      ReservedWords.builtIn.contains "End/My_unit.éClair" = false := by
  obtain ⟨-, -, hcapital, hkept, hparts, hdotted, hreserved⟩ :=
    normalizeIdentifier_capitalizes_words slashedName
  have hform : normalizeIdentifier slashedName = "End/My_unit.éClair" := by decide +kernel
  have hlast : (normalizeIdentifier slashedName).toList
      = "End/My_unit.é".toList ++ 'C' :: "lair".toList := by
    rw [hform]
    decide +kernel
  have hinner : slashedName.toList = "end/my_u".toList ++ 'n' :: "it.éclair".toList := by
    decide +kernel
  have hnotReserved : ReservedWords.builtIn.contains slashedName = false := by decide +kernel
  refine ⟨hform, hparts "end" '/' "my_unit.éclair" (by decide +kernel) (by decide),
    hcapital _ _ _ hlast (by decide +kernel), hkept _ _ _ hinner (by decide +kernel), ?_, ?_⟩
  · rw [hdotted, hform]
  · rw [← hform, hreserved, hnotReserved]

end Text

end DelphiUnits

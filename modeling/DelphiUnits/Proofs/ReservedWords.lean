import DelphiUnits.ReservedWords

/-!
# Sets of reserved words

A word that is added to a set of reserved words is reserved from then on in all its spellings,
whether it was put into the set or was there before in another spelling.

## Main results

* `contains_insertMany_iff`: what is reserved after words were added.
-/

namespace DelphiUnits.ReservedWords

/-- A name is reserved exactly if it is one of the words, up to letter case. -/
theorem contains_iff {r : ReservedWords} {name : String} :
    r.contains name = true ↔ ∃ word ∈ r.words, Text.sameIgnoringCase word name = true :=
  List.any_eq_true

/-- **A word is added** for all its spellings, and for no other names. -/
theorem contains_insert_iff {r : ReservedWords} {word name : String} :
    (r.insert word).contains name = true ↔
      r.contains name = true ∨ Text.sameIgnoringCase word name = true := by
  rw [insert]
  by_cases hword : r.contains word = true
  · rw [if_pos hword]
    refine ⟨.inl, ?_⟩
    rintro (hname | hsame)
    · exact hname
    · -- The set has another spelling of the word, which is one of the name as well.
      obtain ⟨known, hknown, hspelling⟩ := contains_iff.mp hword
      rw [Text.sameIgnoringCase, beq_iff_eq] at hsame hspelling
      refine contains_iff.mpr ⟨known, hknown, ?_⟩
      rw [Text.sameIgnoringCase, beq_iff_eq, hspelling, hsame]
  · rw [if_neg hword, contains, contains, List.any_append, Bool.or_eq_true, List.any_cons,
      List.any_nil, Bool.or_false]

/-- **What is reserved after words were added**: what was before, and the words. -/
theorem contains_insertMany_iff {r : ReservedWords} {words : List String} {name : String} :
    (r.insertMany words).contains name = true ↔
      r.contains name = true ∨ ∃ word ∈ words, Text.sameIgnoringCase word name = true := by
  induction words generalizing r with
  | nil => simp [insertMany]
  | cons word rest ih =>
      have hstep : r.insertMany (word :: rest) = (r.insert word).insertMany rest := rfl
      rw [hstep, ih, contains_insert_iff, or_assoc]
      simp

end DelphiUnits.ReservedWords

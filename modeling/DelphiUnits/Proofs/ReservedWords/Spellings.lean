import DelphiUnits.Proofs.Pascal.Registered
import DelphiUnits.Proofs.ReservedWords

/-!
# The spellings that a set of reserved words keeps

A set of reserved words is a list without two spellings of one word. Words are added to it in
batches, one after the other, and a word that is there in any spelling is passed over. This is the
rule by which a compilation unit adds to its registries, with the spelling in small letters as the
key of a word, so the list has **the first spelling of each word, in the order in which they came**.

Which names are reserved does not depend on that order, nor on how the words came in batches.

## Main results

* `words_insert`, `words_insertMany`: the words of a set follow the rule of a registry;
* `foldl_insertMany`: batches of words are added as one list of them;
* `mem_words_iff`: a word is kept exactly if it is the first spelling of itself;
* `words_of_batches`: what batches of words leave, and which names they reserve.
-/

namespace DelphiUnits.ReservedWords

open Pascal (addAll addAll_eq addNew mem_addAll_iff nodup_map_addAll)
open Text (foldCase sameIgnoringCase)

variable {words : List String} {batches : List (List String)} {word : String}

/-- Words are the same up to letter case exactly if their small letters are. -/
theorem sameIgnoringCase_iff {a b : String} :
    sameIgnoringCase a b = true ↔ foldCase a = foldCase b :=
  beq_iff_eq

/-- **A word is added** by the rule of a registry. -/
theorem words_insert (r : ReservedWords) (word : String) :
    (r.insert word).words = addNew foldCase r.words word := by
  have hknown : r.contains word = true ↔ foldCase word ∈ r.words.map foldCase := by
    simp only [contains_iff, sameIgnoringCase_iff, List.mem_map]
  rw [insert, addNew]
  by_cases h : r.contains word = true
  · rw [if_pos h, if_pos (hknown.mp h)]
  · rw [if_neg h, if_neg (mt hknown.mpr h)]

/-- **Words are added** by the rule of a registry. -/
theorem words_insertMany (r : ReservedWords) (words : List String) :
    (r.insertMany words).words = addAll foldCase r.words words := by
  induction words generalizing r with
  | nil => rfl
  | cons word rest ih =>
      have hstep : r.insertMany (word :: rest) = (r.insert word).insertMany rest := rfl
      rw [hstep, ih, words_insert]
      rfl

/-- **Batches of words** are added as one list of them. -/
theorem foldl_insertMany (r : ReservedWords) (batches : List (List String)) :
    batches.foldl insertMany r = r.insertMany batches.flatten := by
  rw [insertMany, List.foldl_flatten]
  rfl

/-- The built-in words are those that are left of themselves. -/
theorem addAll_builtInWords : addAll foldCase [] builtInWords = builtInWords := by
  decide +kernel

/-- What is added to the built-in words is what is left of all words, the built-in ones first. -/
theorem words_insertMany_builtIn (words : List String) :
    (builtIn.insertMany words).words = addAll foldCase [] (builtInWords ++ words) := by
  have hbuiltIn : builtInWords.foldl (addNew foldCase) [] = builtInWords := addAll_builtInWords
  rw [words_insertMany, addAll, addAll, List.foldl_append, hbuiltIn]
  rfl

/-- **A word is kept** exactly if no other spelling of it comes before it. -/
theorem mem_words_iff :
    word ∈ (builtIn.insertMany words).words ↔
      ∃ before after, builtInWords ++ words = before ++ word :: after ∧
        ∀ earlier ∈ before, sameIgnoringCase earlier word = false := by
  rw [words_insertMany_builtIn, mem_addAll_iff]
  simp only [List.mem_map, not_exists, not_and, ← Bool.not_eq_true, sameIgnoringCase_iff]

/-- **No word is kept in two spellings.** -/
theorem pairwise_words (words : List String) :
    (builtIn.insertMany words).words.Pairwise fun a b => sameIgnoringCase a b = false := by
  have hkeys := nodup_map_addAll foldCase (builtInWords ++ words)
  rw [← words_insertMany_builtIn, List.Nodup, List.pairwise_map] at hkeys
  refine hkeys.imp fun hne => ?_
  rw [← Bool.not_eq_true, sameIgnoringCase_iff]
  exact hne

/-- **What is kept** is the built-in words, and the first spelling of each word that is none. -/
theorem words_insertMany_builtIn_eq (words : List String) :
    (builtIn.insertMany words).words
      = builtInWords ++
          (words.filter fun word => !builtIn.contains word).eraseDupsBy sameIgnoringCase := by
  have hsame : (fun a b => decide (foldCase a = foldCase b)) = sameIgnoringCase := by
    funext a b
    exact (beq_eq_decide _ _).symm
  rw [words_insertMany, addAll_eq, hsame]
  refine congrArg (builtInWords ++ ·) (congrArg _ (List.filter_congr fun word _ => ?_))
  rw [Bool.eq_iff_iff]
  simp [contains, sameIgnoringCase]

/-- **A name is reserved** exactly if it is a built-in word or one of the batches, up to letter
case. -/
theorem contains_batches_iff {name : String} :
    (batches.foldl insertMany builtIn).contains name = true ↔
      ∃ word ∈ builtInWords ++ batches.flatten, sameIgnoringCase word name = true := by
  rw [foldl_insertMany, contains_insertMany_iff, contains_iff]
  simp only [List.mem_append, or_and_right, exists_or]
  rfl

/-- **What batches of words leave.** A name is reserved exactly if it is a built-in word or one of
the batches, up to letter case, so neither the order of the words nor their batches matter. No word
is kept in two spellings. The words that are kept are the built-in ones and behind them those of the
batches that were new, each where and as it was first spelled: a word is kept exactly if no spelling
of it comes before it. -/
theorem words_of_batches (batches : List (List String)) :
    (∀ name, (batches.foldl insertMany builtIn).contains name = true ↔
      ∃ word ∈ builtInWords ++ batches.flatten, sameIgnoringCase word name = true) ∧
    (∀ others : List (List String), others.flatten.Perm batches.flatten →
      ∀ name, (others.foldl insertMany builtIn).contains name
        = (batches.foldl insertMany builtIn).contains name) ∧
    (batches.foldl insertMany builtIn).words.Pairwise
      (fun a b => sameIgnoringCase a b = false) ∧
    (batches.foldl insertMany builtIn).words
      = builtInWords ++
          (batches.flatten.filter fun word => !builtIn.contains word).eraseDupsBy
            sameIgnoringCase ∧
    ∀ word, word ∈ (batches.foldl insertMany builtIn).words ↔
      ∃ before after, builtInWords ++ batches.flatten = before ++ word :: after ∧
        ∀ earlier ∈ before, sameIgnoringCase earlier word = false := by
  refine ⟨fun name => contains_batches_iff, ?_, ?_, ?_, ?_⟩
  · intro others hperm name
    rw [Bool.eq_iff_iff, contains_batches_iff, contains_batches_iff]
    simp only [List.mem_append, hperm.mem_iff]
  · rw [foldl_insertMany]
    exact pairwise_words batches.flatten
  · rw [foldl_insertMany, words_insertMany_builtIn_eq]
  · intro word
    rw [foldl_insertMany, mem_words_iff]

/-- Two batches with three spellings of one word, and one of a built-in word. -/
def mixedBatches : List (List String) :=
  [["Label", "Begin"], ["async", "LABEL", "label"]]

/-- The first spelling is kept, and the same words in other batches reserve it as well. -/
theorem words_of_mixedBatches :
    (mixedBatches.foldl insertMany builtIn).words = builtInWords ++ ["Label", "async"] ∧
      ([["label"], ["LABEL", "async"], ["Begin", "Label"]].foldl insertMany builtIn).contains "lAbEl"
        = true := by
  obtain ⟨hnames, hothers, -, hwords, -⟩ := words_of_batches mixedBatches
  have hname : (mixedBatches.foldl insertMany builtIn).contains "lAbEl" = true :=
    (hnames "lAbEl").mpr ⟨"Label", by decide, by decide⟩
  refine ⟨?_, ?_⟩
  · rw [hwords]
    decide +kernel
  · rw [hothers _ (by decide), hname]

end DelphiUnits.ReservedWords

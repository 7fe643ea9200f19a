import Mathlib.Data.List.DropRight
import DelphiUnits.Proofs.Text.Span

/-!
# Lines and columns

A reader that fails says where by a line and a column, and an error is shown at a byte offset. What
the line and the column of an offset are is said here by counting bytes: the newlines before it, and
what stands between the last of them and it. Both are counted from one, and an offset may lie inside
the encoding of a character.

The conversion back adds up the lines of a text, which are cut at its characters. The text has no
line behind a newline at its end, yet that is where the offset of its end lies. Nothing is lost by
it: the lines above that position are all lines of the text.

## Main results

* `take_lines_flatten`: the lines up to a newline are what stands up to that newline;
* `lineStart_add_columnAt`: an offset is its line's start and as many bytes as its column says;
* `offsetAt?_of_position`: lines and columns convert back to the offset, and any others to an offset
  in the text that grows with them.
-/

namespace DelphiUnits.Text

/-- The byte of a newline. -/
def newline : UInt8 :=
  '\n'.toUInt8

/-- The **line of an offset**: one more than there are newlines before it. -/
def lineAt (text : String) (i : Nat) : Nat :=
  1 + ((bytes text).take i).count newline

/-- The **column of an offset**: one more than there are bytes from the start of its line to it. -/
def columnAt (text : String) (i : Nat) : Nat :=
  1 + (((bytes text).take i).rtakeWhile (· ≠ newline)).length

/-- The offset at which a line starts. A line behind the last one starts at the end. -/
def lineStart (text : String) (line : Nat) : Nat :=
  byteLength ((lines text.toList).take (line - 1)).flatten

/-! ### Lines up to a newline -/

/-- A text is cut at a newline, whatever follows it. -/
theorem lines_append_newline (cs ds : List Char) :
    lines (cs ++ '\n' :: ds) = lines (cs ++ ['\n']) ++ lines ds := by
  induction cs with
  | nil => rfl
  | cons c cs ih =>
      by_cases hc : c = '\n'
      · rw [List.cons_append, List.cons_append, lines, lines, if_pos hc, if_pos hc, ih]
        rfl
      · obtain ⟨line, rest, hlines⟩ : ∃ line rest, lines (cs ++ ['\n']) = line :: rest := by
          apply List.exists_cons_of_ne_nil
          intro hnil
          have htext := flatten_lines (cs ++ ['\n'])
          rw [hnil] at htext
          simp at htext
        rw [List.cons_append, List.cons_append, lines, lines, if_neg hc, if_neg hc, ih, hlines]
        rfl

/-- There are as many lines as newlines up to one of them. -/
theorem length_lines_append_newline (cs : List Char) :
    (lines (cs ++ ['\n'])).length = cs.count '\n' + 1 := by
  induction cs with
  | nil => rfl
  | cons c cs ih =>
      by_cases hc : c = '\n'
      · rw [List.cons_append, lines, if_pos hc, List.length_cons, ih, hc, List.count_cons_self]
      · rw [List.cons_append, lines, if_neg hc, List.count_cons_of_ne hc, ← ih]
        cases hlines : lines (cs ++ ['\n']) with
        | nil =>
            rw [hlines] at ih
            cases ih
        | cons line rest => rfl

/-- **The lines up to a newline** are what stands up to it. -/
theorem take_lines_flatten (cs ds : List Char) :
    ((lines (cs ++ '\n' :: ds)).take (cs.count '\n' + 1)).flatten = cs ++ ['\n'] := by
  rw [lines_append_newline, ← length_lines_append_newline, List.take_left, flatten_lines]

/-- Newlines are counted among the bytes as among the characters. -/
theorem count_newline_encode (cs : List Char) :
    (cs.flatMap String.utf8EncodeChar).count newline = cs.count '\n' := by
  induction cs with
  | nil => rfl
  | cons c cs ih =>
      rw [List.flatMap_cons, List.count_append, ih]
      by_cases hc : c = '\n'
      · rw [hc, List.count_cons_self, encode_ascii (by decide), Nat.add_comm]
        rfl
      · have hnone : (String.utf8EncodeChar c).count newline = 0 :=
          List.count_eq_zero.mpr fun hmem => hc (eq_of_mem_encode (by decide) hmem)
        rw [List.count_cons_of_ne hc, hnone, Nat.zero_add]

/-! ### Offsets -/

/-- **Bytes end in a line**: they have no newline, or a last one with the line behind it. -/
theorem rtakeWhile_newline_cases (front : List UInt8) :
    newline ∉ front ∧ front.rtakeWhile (· ≠ newline) = front ∨
      ∃ above line, front = above ++ newline :: line ∧ newline ∉ line ∧
        front.rtakeWhile (· ≠ newline) = line := by
  induction front using List.reverseRecOn with
  | nil => exact .inl ⟨List.not_mem_nil, rfl⟩
  | append_singleton front b ih =>
      by_cases hb : b = newline
      · refine .inr ⟨front, [], by rw [hb], List.not_mem_nil, ?_⟩
        exact List.rtakeWhile_concat_neg _ _ _ (by simpa using hb)
      · rw [List.rtakeWhile_concat_pos _ _ _ (by simpa using hb)]
        rcases ih with ⟨hnone, hline⟩ | ⟨above, line, rfl, hnone, hline⟩
        · exact .inl ⟨by simp [hnone, Ne.symm hb], by rw [hline]⟩
        · exact .inr ⟨above, line ++ [b], by simp, by simp [hnone, Ne.symm hb], by rw [hline]⟩

/-- **An offset is where its line starts, and as many bytes further as its column says.** -/
theorem lineStart_add_columnAt {text : String} {i : Nat} (hi : i ≤ (bytes text).length) :
    lineStart text (lineAt text i) + (columnAt text i - 1) = i := by
  have hlength : ((bytes text).take i).length = i := List.length_take_of_le hi
  rw [lineStart, lineAt, columnAt, Nat.add_sub_cancel_left, Nat.add_sub_cancel_left]
  rcases rtakeWhile_newline_cases ((bytes text).take i) with
    ⟨hnone, hline⟩ | ⟨above, line, hfront, hnone, hline⟩
  · -- The offset is on the first line, which starts with the text.
    rw [hline, hlength, List.count_eq_zero.mpr hnone]
    exact Nat.zero_add i
  · -- The newline in front of its line is one of the characters.
    have hcut : text.toList.flatMap String.utf8EncodeChar
        = above ++ newline :: (line ++ (bytes text).drop i) := by
      rw [← bytes_eq, ← List.cons_append, ← List.append_assoc, ← hfront, List.take_append_drop]
    obtain ⟨before, after, htext, rfl, -⟩ := exists_cut_of_encode (by decide) hcut
    have hcount : ((bytes text).take i).count newline = before.count '\n' + 1 := by
      rw [hfront, List.count_append, List.count_cons_self, List.count_eq_zero.mpr hnone,
        count_newline_encode]
    rw [hline, hcount, htext, take_lines_flatten, byteLength_append, byteLength_eq]
    rw [hfront, List.length_append, List.length_cons] at hlength
    have hnewline : byteLength ['\n'] = 1 := by decide
    omega

/-- Later lines start further behind. -/
theorem lineStart_mono (text : String) {line line' : Nat} (h : line ≤ line') :
    lineStart text line ≤ lineStart text line' := by
  obtain ⟨more, hmore⟩ :=
    List.take_prefix_take_left (l := lines text.toList) (Nat.sub_le_sub_right h 1)
  rw [lineStart, lineStart, ← hmore, List.flatten_append, byteLength_append]
  exact Nat.le_add_right _ _

/-- **The offset of a position**, from the start of its line. -/
theorem offsetAt?_eq (text : String) {line : Nat} (hline : 1 ≤ line) (column : Nat) :
    offsetAt? text line column
      = some (min (lineStart text line + (column - 1)) (bytes text).length) := by
  rw [offsetAt?, if_neg (by omega), bytes_eq, ← byteLength_eq]
  rfl

/-- **Lines and columns convert back to the offset.** Every offset up to the end of a text is that of
the line and the column it is on, also where it lies inside a character, on a newline or behind the
last one. Every line from the first one on and every column have an offset, which lies in the text
up to its end, and does not decrease where the column grows on a line, or the line in a column. -/
theorem offsetAt?_of_position (text : String) :
    (∀ i ≤ (bytes text).length, offsetAt? text (lineAt text i) (columnAt text i) = some i) ∧
    ∀ line column, 1 ≤ line → ∃ i ≤ (bytes text).length,
      offsetAt? text line column = some i ∧
      (∀ column', column ≤ column' → ∃ j, offsetAt? text line column' = some j ∧ i ≤ j) ∧
      ∀ line', line ≤ line' → ∃ j, offsetAt? text line' column = some j ∧ i ≤ j := by
  constructor
  · intro i hi
    have hfirst : 1 ≤ lineAt text i := Nat.le_add_right _ _
    rw [offsetAt?_eq text hfirst, lineStart_add_columnAt hi, Nat.min_eq_left hi]
  · intro line column hline
    refine ⟨_, Nat.min_le_right _ _, offsetAt?_eq text hline column, ?_, ?_⟩
    · intro column' hcolumn
      refine ⟨_, offsetAt?_eq text hline column', ?_⟩
      omega
    · intro line' hle
      have hstart := lineStart_mono text hle
      refine ⟨_, offsetAt?_eq text (hline.trans hle) column, ?_⟩
      omega

/-- A text with a line of one character of two bytes, an empty line and a newline at its end. -/
def briefText : String :=
  "é\n\nz\n"

/-- The offset inside the character, that of the second newline and that of the end are on three
lines. A position behind the text has the offset of the end. -/
theorem offsetAt?_of_briefText :
    offsetAt? briefText 1 2 = some 1 ∧ offsetAt? briefText 2 1 = some 3 ∧
      offsetAt? briefText 4 1 = some 6 ∧
      ∃ i ≤ (bytes briefText).length, offsetAt? briefText 9 9 = some i := by
  obtain ⟨hback, hany⟩ := offsetAt?_of_position briefText
  have hinside := hback 1 (by decide +kernel)
  have hnewline := hback 3 (by decide +kernel)
  have hend := hback 6 (by decide +kernel)
  obtain ⟨i, hi, hbehind, -⟩ := hany 9 9 (by decide)
  have hpositions : lineAt briefText 1 = 1 ∧ columnAt briefText 1 = 2 ∧ lineAt briefText 3 = 2 ∧
      columnAt briefText 3 = 1 ∧ lineAt briefText 6 = 4 ∧ columnAt briefText 6 = 1 := by
    decide +kernel
  obtain ⟨hl₁, hc₁, hl₃, hc₃, hl₆, hc₆⟩ := hpositions
  rw [hl₁, hc₁] at hinside
  rw [hl₃, hc₃] at hnewline
  rw [hl₆, hc₆] at hend
  exact ⟨hinside, hnewline, hend, i, hi, hbehind⟩

end DelphiUnits.Text

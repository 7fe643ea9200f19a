import DelphiUnits.Proofs.Text.Bytes
import DelphiUnits.Text.Span
import Mathlib.Data.List.TakeWhile

/-!
# What a span covers

A span is given in bytes, while the search for it goes through characters. What it covers is said
here of the bytes of the source alone: how many stand before it, which are its own, which stand next
to it. Bytes can be cut where characters can: a byte of an ASCII character is not part of the
encoding of any other, so a value between two quotes among the bytes is one among the characters.

A key is looked for line by line. Lines are what stands between the newlines of a source; the search
keeps the newline at the end of each, and that newline is never part of what is found.

## Main results

* `exists_cut_of_encode`: bytes are cut at an ASCII character as the characters are;
* `findOffset?_eq_some`: the offset of a pattern is that of its first occurrence;
* `exists_of_keySpan?`: the span of a key is in the first line that assigns to it;
* `firstQuotedAt_of_quotedSpan?`: the span of a quoted value is the first between such quotes;
* `spans_sound_complete_first`: what the spans of keys and of quoted values cover, and when there
  are any.
-/

namespace DelphiUnits.Text

/-! ### Bytes and characters -/

/-- Bytes are counted as they are encoded. -/
theorem byteLength_eq (cs : List Char) :
    byteLength cs = (cs.flatMap String.utf8EncodeChar).length := by
  induction cs with
  | nil => rfl
  | cons c cs ih =>
      rw [byteLength, List.flatMap_cons, List.length_append, String.length_utf8EncodeChar, ih]

/-- Bytes are counted part by part. -/
theorem byteLength_append (cs ds : List Char) :
    byteLength (cs ++ ds) = byteLength cs + byteLength ds := by
  simp only [byteLength_eq, List.flatMap_append, List.length_append]

/-- **Different characters have different bytes.** -/
theorem flatMap_encode_inj {cs ds : List Char}
    (h : cs.flatMap String.utf8EncodeChar = ds.flatMap String.utf8EncodeChar) : cs = ds := by
  rcases Decidable.em (cs < ds) with hlt | hnlt
  · exact absurd (h ▸ flatMap_encode_lt hlt) (List.lt_irrefl _)
  · rcases Decidable.em (ds < cs) with hgt | hngt
    · exact absurd (h ▸ flatMap_encode_lt hgt) (List.lt_irrefl _)
    · exact List.le_antisymm hngt hnlt

/-- The byte of an ASCII character. -/
theorem encode_ascii {q : Char} (hq : q.val.toNat < 128) :
    String.utf8EncodeChar q = [q.toUInt8] := by
  simp only [String.utf8EncodeChar, if_pos (Nat.le_of_lt_succ hq)]
  rfl

/-- **An ASCII byte is a character of its own**: it occurs in no other encoding. -/
theorem eq_of_mem_encode {c q : Char} (hq : q.val.toNat < 128)
    (h : q.toUInt8 ∈ String.utf8EncodeChar c) : c = q := by
  have hbyte : q.toUInt8 = UInt8.ofNat q.val.toNat := rfl
  have hc := toNat_val_lt c
  rw [hbyte] at h
  have hcode : c.val.toNat = q.val.toNat := by
    simp only [String.utf8EncodeChar] at h
    generalize c.val.toNat = m at h hc ⊢
    generalize q.val.toNat = n at h hq ⊢
    -- Only the encoding of a single byte has one below 128.
    split_ifs at h <;>
      simp (disch := omega) only [List.mem_cons, List.not_mem_nil, or_false, ofNat_eq_iff] at h <;>
      omega
  exact Char.ext (UInt32.toNat_inj.mp hcode)

/-- **Bytes are cut at an ASCII character as the characters are.** -/
theorem exists_cut_of_encode {q : Char} (hq : q.val.toNat < 128) {cs : List Char}
    {xs ys : List UInt8} (h : cs.flatMap String.utf8EncodeChar = xs ++ q.toUInt8 :: ys) :
    ∃ before after, cs = before ++ q :: after ∧
      before.flatMap String.utf8EncodeChar = xs ∧ after.flatMap String.utf8EncodeChar = ys := by
  induction cs generalizing xs with
  | nil => simp at h
  | cons c cs ih =>
      rw [List.flatMap_cons, List.append_eq_append_iff] at h
      rcases h with ⟨xs', rfl, hrest⟩ | ⟨bs, hc, hrest⟩
      · obtain ⟨before, after, rfl, rfl, hafter⟩ := ih hrest
        exact ⟨c :: before, after, rfl, rfl, hafter⟩
      · cases bs with
        | nil =>
            have hcs : cs.flatMap String.utf8EncodeChar = [] ++ q.toUInt8 :: ys := hrest.symm
            obtain ⟨before, after, rfl, hbefore, hafter⟩ := ih hcs
            refine ⟨c :: before, after, rfl, ?_, hafter⟩
            rw [List.flatMap_cons, hbefore, hc, List.append_nil, List.append_nil]
        | cons b bs =>
            obtain ⟨rfl, hys⟩ := List.cons.inj hrest
            obtain rfl := eq_of_mem_encode hq (hc ▸ List.mem_append_right xs List.mem_cons_self)
            -- The encoding has a single byte, so there is nothing before the byte and after it.
            rw [encode_ascii hq] at hc
            obtain ⟨rfl, rfl⟩ : xs = [] ∧ bs = [] := by
              have hlength := congrArg List.length hc
              simp only [List.length_append, List.length_cons, List.length_nil] at hlength
              exact ⟨List.length_eq_zero_iff.mp (by omega), List.length_eq_zero_iff.mp (by omega)⟩
            exact ⟨[], cs, rfl, rfl, hys.symm⟩

/-! ### What a span holds -/

/-- The span **holds a text**: it lies inside the source, and its bytes are those of the text. -/
def Span.Holds (span : Span) (source text : String) : Prop :=
  span.offset + span.length ≤ (bytes source).length ∧
    ((bytes source).drop span.offset).take span.length = bytes text

/-- What stands between other bytes is held by the span that starts behind those before. -/
theorem Span.holds_of_bytes {source text : String} {before : List UInt8} (after : List UInt8)
    (h : bytes source = before ++ (bytes text ++ after)) :
    Span.Holds ⟨before.length, (bytes text).length⟩ source text := by
  refine ⟨?_, ?_⟩
  · change before.length + (bytes text).length ≤ (bytes source).length
    rw [h, List.length_append, List.length_append]
    omega
  · rw [h, List.drop_left, List.take_left]

/-- What stands between other characters is held by the span that starts behind those before. -/
theorem Span.holds_of_toList {source text : String} {before : List Char} (after : List Char)
    (h : source.toList = before ++ text.toList ++ after) :
    Span.Holds ⟨byteLength before, byteLength text.toList⟩ source text := by
  rw [byteLength_eq, byteLength_eq, ← bytes_eq]
  apply Span.holds_of_bytes (after.flatMap String.utf8EncodeChar)
  rw [bytes_eq, bytes_eq, h, List.flatMap_append, List.flatMap_append, List.append_assoc]

/-! ### Lines that assign to a key -/

section Assignments

variable {key line lead : List Char} {ls : List (List Char)} {n : Nat} {span : Span}

/-- A line **assigns to a key behind blanks**: it consists of the blanks, the key, more blanks, an
equals sign, and anything. -/
def AssignsBehind (lead key line : List Char) : Prop :=
  ∃ gap rest, line = lead ++ key ++ gap ++ '=' :: rest ∧
    (∀ c ∈ lead, isBlank c = true) ∧ ∀ c ∈ gap, isBlank c = true

/-- A line **assigns to a key**, behind any blanks. -/
def Assigns (key line : List Char) : Prop :=
  ∃ lead, AssignsBehind lead key line

/-- Trimming a text splits it. -/
theorem exists_trimStart (cs : List Char) :
    ∃ lead, cs = lead ++ trimStart cs ∧ ∀ c ∈ lead, isBlank c = true :=
  ⟨cs.takeWhile isBlank, List.takeWhile_append_dropWhile.symm, fun _ => List.mem_takeWhile_imp⟩

/-- Blanks are trimmed up to the first other character. -/
theorem trimStart_append_cons (hlead : ∀ c ∈ lead, isBlank c = true) {c : Char}
    (hc : isBlank c = false) (cs : List Char) : trimStart (lead ++ c :: cs) = c :: cs := by
  rw [trimStart, List.dropWhile_append_of_pos hlead, List.dropWhile_cons_of_neg]
  exact Bool.eq_false_iff.mp hc

/-- A line that is taken assigns to the key behind as many bytes of blanks as are answered. -/
theorem exists_of_assignment? (h : assignment? key line = some n) :
    ∃ lead, AssignsBehind lead key line ∧ n = byteLength lead := by
  obtain ⟨lead, hline, hlead⟩ := exists_trimStart line
  obtain ⟨⟨hstart, hequals⟩, rfl⟩ : (key.isPrefixOf (trimStart line) = true ∧
      (trimStart ((trimStart line).drop key.length)).head? = some '=') ∧
      byteLength line - byteLength (trimStart line) = n := by
    simpa only [assignment?, Option.ite_none_right_eq_some, Option.some.injEq] using h
  obtain ⟨tail, htail⟩ := List.isPrefixOf_iff_prefix.mp hstart
  obtain ⟨gap, hgap, hblank⟩ := exists_trimStart tail
  rw [← htail, List.drop_left] at hequals
  obtain ⟨rest, hrest⟩ := List.head?_eq_some_iff.mp hequals
  refine ⟨lead, ⟨gap, rest, ?_, hlead, hblank⟩, ?_⟩
  · rw [hline, ← htail, hgap, hrest]
    simp only [List.append_assoc]
  · have hbytes : byteLength line = byteLength lead + byteLength (trimStart line) := by
      rw [← byteLength_append, ← hline]
    omega

/-- **A line is taken if it assigns to the key**, given that the key does not start with a blank. -/
theorem assignment?_eq_none_iff (hkey : ∀ c ∈ key.head?, isBlank c = false) :
    assignment? key line = none ↔ ¬Assigns key line := by
  refine ⟨?_, fun hnot => ?_⟩
  · rintro h ⟨lead, gap, rest, rfl, hlead, hgap⟩
    have hequals (blanks : List Char) (hblanks : ∀ c ∈ blanks, isBlank c = true) :
        trimStart (blanks ++ '=' :: rest) = '=' :: rest :=
      trimStart_append_cons hblanks (by decide) rest
    have htrimmed : ∃ gap', trimStart (lead ++ key ++ gap ++ '=' :: rest) =
        key ++ (gap' ++ '=' :: rest) ∧ ∀ c ∈ gap', isBlank c = true := by
      cases key with
      | nil =>
          refine ⟨[], ?_, by simp⟩
          rw [List.append_nil]
          exact hequals _ fun c hc => (List.mem_append.mp hc).elim (hlead c) (hgap c)
      | cons k ks =>
          refine ⟨gap, ?_, hgap⟩
          rw [List.append_assoc, List.append_assoc, List.cons_append,
            trimStart_append_cons hlead (hkey k rfl)]
    obtain ⟨gap', htrimmed, hgap'⟩ := htrimmed
    rw [assignment?, htrimmed, List.drop_left, hequals gap' hgap', if_pos] at h
    · cases h
    · exact ⟨List.isPrefixOf_iff_prefix.mpr (List.prefix_append _ _), rfl⟩
  · refine Option.eq_none_iff_forall_ne_some.mpr fun n h => hnot ?_
    obtain ⟨lead, hassigns, -⟩ := exists_of_assignment? h
    exact ⟨lead, hassigns⟩

/-- The newline that ends a line is not part of what it assigns. -/
theorem assignsBehind_append_newline :
    AssignsBehind lead key (line ++ ['\n']) ↔ AssignsBehind lead key line := by
  constructor
  · rintro ⟨gap, rest, hline, hlead, hgap⟩
    rcases List.eq_nil_or_concat rest with rfl | ⟨rest, last, rfl⟩
    · exact absurd (List.append_inj_right' hline rfl) (by decide)
    · refine ⟨gap, rest, ?_, hlead, hgap⟩
      rw [List.concat_eq_append, ← List.cons_append, ← List.append_assoc] at hline
      exact List.append_inj_left' hline rfl
  · rintro ⟨gap, rest, rfl, hlead, hgap⟩
    exact ⟨gap, rest ++ ['\n'], by simp only [List.append_assoc, List.cons_append], hlead, hgap⟩

/-- The newline that ends a line does not decide whether it assigns. -/
theorem assigns_append_newline : Assigns key (line ++ ['\n']) ↔ Assigns key line :=
  exists_congr fun _ => assignsBehind_append_newline

/-- An empty line assigns to nothing. -/
theorem not_assigns_nil : ¬Assigns key [] := by
  rintro ⟨lead, gap, rest, h, -⟩
  simp at h

/-! ### The first line that assigns -/

/-- Lines with their newlines: every one ends in a newline but the last, which is left out if it is
empty. -/
def terminated : List (List Char) → List (List Char)
  | [] => []
  | [line] => if line.isEmpty then [] else [line]
  | line :: below :: rest => (line ++ ['\n']) :: terminated (below :: rest)

/-- **The lines that are searched** are those between newlines, with their newlines. -/
theorem lines_eq (cs : List Char) : lines cs = terminated (cs.splitOn '\n') := by
  induction cs with
  | nil => rfl
  | cons c cs ih =>
      obtain ⟨line, rest, hsplit⟩ := List.exists_cons_of_ne_nil (List.splitOn_ne_nil '\n' cs)
      rw [hsplit] at ih
      rw [List.splitOn_eq_splitOnP] at hsplit
      by_cases hc : c = '\n'
      · have hcons : (c :: cs).splitOn '\n' = [] :: line :: rest := by
          rw [List.splitOn_eq_splitOnP, List.splitOnP_cons_eq_if_modifyHead,
            if_pos (beq_iff_eq.mpr hc), hsplit]
        rw [lines, if_pos hc, hcons, terminated, ih, hc]
        rfl
      · have hcons : (c :: cs).splitOn '\n' = (c :: line) :: rest := by
          rw [List.splitOn_eq_splitOnP, List.splitOnP_cons_eq_if_modifyHead,
            if_neg (mt beq_iff_eq.mp hc), hsplit, List.modifyHead_cons]
        rw [lines, if_neg hc, hcons, ih]
        -- Only a last line may be left out, and one that has a character is not.
        cases rest with
        | nil => cases line <;> rfl
        | cons below rest => rfl

/-- **Nothing is found** if no line assigns to the key. -/
theorem keySpanFrom?_eq_none_iff (hkey : ∀ c ∈ key.head?, isBlank c = false) :
    keySpanFrom? key n ls = none ↔ ∀ line ∈ ls, ¬Assigns key line := by
  induction ls generalizing n with
  | nil => simp [keySpanFrom?]
  | cons line ls ih =>
      rw [keySpanFrom?, List.forall_mem_cons, ← assignment?_eq_none_iff hkey]
      cases assignment? key line with
      | none => simpa using ih
      | some lead => simp

/-- **What is found** is in the first line that assigns to the key, behind its blanks. -/
theorem exists_of_keySpanFrom? (hkey : ∀ c ∈ key.head?, isBlank c = false)
    (h : keySpanFrom? key n ls = some span) :
    ∃ above line below lead, ls = above ++ line :: below ∧ (∀ l ∈ above, ¬Assigns key l) ∧
      AssignsBehind lead key line ∧
      span = ⟨n + byteLength above.flatten + byteLength lead, byteLength key⟩ := by
  induction ls generalizing n with
  | nil => cases h
  | cons line ls ih =>
      rw [keySpanFrom?] at h
      cases hline : assignment? key line with
      | some k =>
          obtain ⟨lead, hlead, rfl⟩ := exists_of_assignment? hline
          rw [hline] at h
          exact ⟨[], line, ls, lead, rfl, by simp, hlead, (Option.some.inj h).symm⟩
      | none =>
          rw [hline] at h
          obtain ⟨above, line', below, lead, rfl, habove, hlead, rfl⟩ := ih h
          refine ⟨line :: above, line', below, lead, rfl, ?_, hlead, ?_⟩
          · exact List.forall_mem_cons.mpr ⟨(assignment?_eq_none_iff hkey).mp hline, habove⟩
          · rw [List.flatten_cons, byteLength_append, Nat.add_assoc n]

/-- Lines assign with their newlines if they do without. -/
theorem exists_terminated_assigns_iff :
    (∃ line ∈ terminated ls, Assigns key line) ↔ ∃ line ∈ ls, Assigns key line := by
  fun_induction terminated ls with
  | case1 => rfl
  | case2 line hempty => simp [List.isEmpty_iff.mp hempty, not_assigns_nil]
  | case3 line hempty => rfl
  | case4 line below rest ih =>
      simp only [List.mem_cons, exists_eq_or_imp] at ih ⊢
      rw [ih, assigns_append_newline]

/-- A line with its newline is one without, and so are those above it. -/
theorem exists_of_terminated {above' below' : List (List Char)} {line' : List Char}
    (h : terminated ls = above' ++ line' :: below') :
    ∃ above line below, ls = above ++ line :: below ∧ above' = above.map (· ++ ['\n']) ∧
      (line' = line ∨ line' = line ++ ['\n']) := by
  fun_induction terminated ls generalizing above' with
  | case1 => simp at h
  | case2 line hempty => simp at h
  | case3 line hempty =>
      obtain ⟨rfl, hline⟩ | ⟨tail, -, hnil⟩ := List.append_eq_cons_iff.mp h.symm
      · exact ⟨[], line, [], rfl, rfl, .inl (List.cons.inj hline).1⟩
      · simp at hnil
  | case4 line below rest ih =>
      obtain ⟨rfl, hline⟩ | ⟨tail, rfl, htail⟩ := List.append_eq_cons_iff.mp h.symm
      · exact ⟨[], line, below :: rest, rfl, rfl, .inr (List.cons.inj hline).1⟩
      · obtain ⟨above, line₁, below₁, hls, rfl, hline⟩ := ih htail
        exact ⟨line :: above, line₁, below₁, by rw [hls]; rfl, rfl, hline⟩

/-- The lines of a text make it up. -/
theorem flatten_lines (cs : List Char) : (lines cs).flatten = cs := by
  induction cs with
  | nil => rfl
  | cons c cs ih =>
      rw [lines]
      split_ifs with hc
      · rw [List.flatten_cons, ih]
        rfl
      · cases hlines : lines cs with
        | nil =>
            rw [← ih, hlines]
            rfl
        | cons line ls =>
            rw [← ih, hlines]
            rfl

end Assignments

/-- **A key without a line that assigns to it** has no span. -/
theorem keySpan?_eq_none_iff {source key : String}
    (hkey : ∀ c ∈ key.toList.head?, isBlank c = false) :
    keySpan? source key = none ↔
      ¬∃ line ∈ source.toList.splitOn '\n', Assigns key.toList line := by
  rw [keySpan?, keySpanFrom?_eq_none_iff hkey, lines_eq, ← exists_terminated_assigns_iff]
  simp only [not_exists, not_and]

/-- **The span of a key** holds it, where it stands in the first line that assigns to it. -/
theorem exists_of_keySpan? {source key : String} {span : Span}
    (hkey : ∀ c ∈ key.toList.head?, isBlank c = false) (h : keySpan? source key = some span) :
    span.Holds source key ∧
      ∃ above line below lead, source.toList.splitOn '\n' = above ++ line :: below ∧
        (∀ l ∈ above, ¬Assigns key.toList l) ∧ AssignsBehind lead key.toList line ∧
        span.offset = byteLength (above.flatMap (· ++ ['\n'])) + byteLength lead := by
  obtain ⟨above', line', below', lead, hlines, habove', hassigns, rfl⟩ :=
    exists_of_keySpanFrom? hkey h
  rw [Nat.zero_add]
  refine ⟨?_, ?_⟩
  · obtain ⟨gap, rest, hline', -⟩ := hassigns
    rw [← byteLength_append]
    apply Span.holds_of_toList (gap ++ '=' :: rest ++ below'.flatten)
    rw [← flatten_lines source.toList, hlines, hline']
    simp only [List.flatten_append, List.flatten_cons, List.append_assoc, List.cons_append]
  · obtain ⟨above, line, below, hsplit, rfl, hline⟩ := exists_of_terminated (lines_eq _ ▸ hlines)
    refine ⟨above, line, below, lead, hsplit, fun l hl => ?_, ?_, by rw [List.flatMap]⟩
    · exact mt assigns_append_newline.mpr (habove' _ (List.mem_map_of_mem hl))
    · obtain rfl | rfl := hline
      · exact hassigns
      · exact assignsBehind_append_newline.mp hassigns

/-! ### The first place between quotes -/

section Quotes

variable {pattern cs : List Char} {n : Nat}

/-- **A pattern without an offset** does not occur. -/
theorem findOffset?_eq_none_iff : findOffset? pattern cs = none ↔ ¬pattern <:+: cs := by
  induction cs with
  | nil => simp [findOffset?]
  | cons c cs ih =>
      rw [findOffset?, List.infix_cons_iff, ← List.isPrefixOf_iff_prefix, not_or, ← ih]
      by_cases hstart : pattern.isPrefixOf (c :: cs) = true
      · simp [hstart]
      · simp [hstart]

/-- **The offset of a pattern** is that of its first occurrence. -/
theorem findOffset?_eq_some (h : findOffset? pattern cs = some n) :
    (∃ before after, cs = before ++ pattern ++ after ∧ n = byteLength before) ∧
      ∀ before after, cs = before ++ pattern ++ after → n ≤ byteLength before := by
  induction cs generalizing n with
  | nil =>
      obtain ⟨hempty, rfl⟩ : pattern = [] ∧ 0 = n := by simpa [findOffset?] using h
      exact ⟨⟨[], [], by simp [hempty], rfl⟩, fun _ _ _ => Nat.zero_le _⟩
  | cons c cs ih =>
      rw [findOffset?] at h
      split_ifs at h with hstart
      · obtain ⟨after, hafter⟩ := List.isPrefixOf_iff_prefix.mp hstart
        obtain rfl := Option.some.inj h
        exact ⟨⟨[], after, hafter.symm, rfl⟩, fun _ _ _ => Nat.zero_le _⟩
      · obtain ⟨k, hk, rfl⟩ := Option.map_eq_some_iff.mp h
        obtain ⟨⟨before, after, hcs, rfl⟩, hfirst⟩ := ih hk
        refine ⟨⟨c :: before, after, by rw [hcs]; rfl, rfl⟩, fun before' after' h' => ?_⟩
        cases before' with
        | nil => exact absurd (List.isPrefixOf_iff_prefix.mpr ⟨after', h'.symm⟩) hstart
        | cons d before' =>
            obtain ⟨rfl, htail⟩ := List.cons.inj h'
            exact Nat.add_le_add_left (hfirst before' after' htail) _

variable {quote : Char} {source value : String} {span : Span}

/-- The value **occurs between two quotes** of the given kind. -/
def Quotes (quote : Char) (source value : String) : Prop :=
  quote :: value.toList ++ [quote] <:+: source.toList

/-- The span **is between two quotes**: its bytes are those of the value, and the bytes next to it
are both the quote. -/
def QuotedAt (quote : Char) (source value : String) (span : Span) : Prop :=
  ∃ before after : List UInt8,
    bytes source = before ++ quote.toUInt8 :: (bytes value ++ quote.toUInt8 :: after) ∧
      span = ⟨before.length + 1, (bytes value).length⟩

/-- The span is **the first** between two quotes. -/
def FirstQuotedAt (quote : Char) (source value : String) (span : Span) : Prop :=
  QuotedAt quote source value span ∧
    ∀ other, QuotedAt quote source value other → span.offset ≤ other.offset

/-- A span between quotes holds the value. -/
theorem QuotedAt.holds (h : QuotedAt quote source value span) : span.Holds source value := by
  obtain ⟨before, after, hbytes, rfl⟩ := h
  have hlength : before.length + 1 = (before ++ [quote.toUInt8]).length := by
    rw [List.length_append]
    rfl
  rw [hlength]
  apply Span.holds_of_bytes (quote.toUInt8 :: after)
  rw [hbytes, List.append_assoc]
  rfl

/-- **Quotes among the bytes are quotes among the characters.** -/
theorem quotedAt_iff (hq : quote.val.toNat < 128) :
    QuotedAt quote source value span ↔
      ∃ before after, source.toList = before ++ (quote :: value.toList ++ [quote]) ++ after ∧
        span = ⟨byteLength before + 1, byteLength value.toList⟩ := by
  have hquote := encode_ascii hq
  constructor
  · rintro ⟨xs, ys, hbytes, rfl⟩
    rw [bytes_eq] at hbytes
    obtain ⟨before, rest, hsource, rfl, hrest⟩ := exists_cut_of_encode hq hbytes
    obtain ⟨middle, after, rfl, hmiddle, -⟩ := exists_cut_of_encode hq hrest
    obtain rfl := flatMap_encode_inj (hmiddle.trans (bytes_eq value))
    refine ⟨before, after, by simp [hsource], ?_⟩
    rw [byteLength_eq, byteLength_eq, ← bytes_eq]
  · rintro ⟨before, after, hsource, rfl⟩
    refine ⟨before.flatMap String.utf8EncodeChar, after.flatMap String.utf8EncodeChar, ?_, ?_⟩
    · rw [bytes_eq, bytes_eq, hsource]
      simp [hquote]
    · rw [byteLength_eq, byteLength_eq, ← bytes_eq]

/-- **A value that is not between quotes** has no span between them. -/
theorem quotedSpan?_eq_none_iff :
    quotedSpan? quote value.toList source.toList = none ↔ ¬Quotes quote source value := by
  rw [quotedSpan?, Option.map_eq_none_iff, findOffset?_eq_none_iff, Quotes]

/-- **The span of a value between quotes** is the first of them. -/
theorem firstQuotedAt_of_quotedSpan? (hq : quote.val.toNat < 128)
    (h : quotedSpan? quote value.toList source.toList = some span) :
    FirstQuotedAt quote source value span := by
  have hsize : quote.utf8Size = 1 := by
    rw [← String.length_utf8EncodeChar, encode_ascii hq]
    rfl
  obtain ⟨start, hstart, rfl⟩ := Option.map_eq_some_iff.mp h
  obtain ⟨⟨before, after, hsource, rfl⟩, hfirst⟩ := findOffset?_eq_some hstart
  refine ⟨(quotedAt_iff hq).mpr ⟨before, after, hsource, by rw [hsize]⟩, fun other hother => ?_⟩
  obtain ⟨before', after', hsource', rfl⟩ := (quotedAt_iff hq).mp hother
  rw [hsize]
  exact Nat.succ_le_succ (hfirst before' after' hsource')

end Quotes

/-! ### Keys and values -/

/-- **Spans are sound, complete and first.** A key that does not start with a blank has a span
exactly if some line consists of blanks, the key, blanks, an equals sign and anything. The span lies
inside the source, its bytes are those of the key, and it is where the key stands in the first such
line: behind the bytes of the lines above with their newlines, and behind those of the blanks.

A value has a span exactly if it occurs between two double quotes or between two single quotes. The
bytes of the span are those of the value, and the bytes next to it are both the quote. No other span
between double quotes starts earlier; and if the value is not between double quotes, no other one
between single quotes does. -/
theorem spans_sound_complete_first (source : String) :
    (∀ key : String, (∀ c ∈ key.toList.head?, isBlank c = false) →
      ((keySpan? source key).isSome = true ↔
        ∃ line ∈ source.toList.splitOn '\n', Assigns key.toList line) ∧
      ∀ span, keySpan? source key = some span →
        span.Holds source key ∧
        ∃ above line below lead, source.toList.splitOn '\n' = above ++ line :: below ∧
          (∀ l ∈ above, ¬Assigns key.toList l) ∧ AssignsBehind lead key.toList line ∧
          span.offset = byteLength (above.flatMap (· ++ ['\n'])) + byteLength lead) ∧
    ∀ value : String,
      ((stringSpan? source value).isSome = true ↔
        Quotes '"' source value ∨ Quotes '\'' source value) ∧
      ∀ span, stringSpan? source value = some span →
        span.Holds source value ∧
        (FirstQuotedAt '"' source value span ∨
          ¬Quotes '"' source value ∧ FirstQuotedAt '\'' source value span) := by
  refine ⟨fun key hkey => ⟨?_, fun span => exists_of_keySpan? hkey⟩, fun value => ⟨?_, ?_⟩⟩
  · rw [Option.isSome_iff_ne_none, Ne, keySpan?_eq_none_iff hkey, not_not]
  · rw [Option.isSome_iff_ne_none, Ne, stringSpan?, Option.or_eq_none_iff,
      quotedSpan?_eq_none_iff, quotedSpan?_eq_none_iff, not_and_or, not_not, not_not]
  · intro span h
    rcases Option.or_eq_some_iff.mp h with hdouble | ⟨hnone, hsingle⟩
    · have hfirst := firstQuotedAt_of_quotedSpan? (by decide) hdouble
      exact ⟨hfirst.1.holds, .inl hfirst⟩
    · have hfirst := firstQuotedAt_of_quotedSpan? (by decide) hsingle
      exact ⟨hfirst.1.holds, .inr ⟨quotedSpan?_eq_none_iff.mp hnone, hfirst⟩⟩

/-- A text with characters of two bytes: a key with accents, the same word as a quoted value, and a
blank that is not ASCII. -/
def accentedText : String :=
  "título = 'clé'\n\u00a0clé = \"é\"\n"

/-- The word is found as a key in the second line, behind the blank of two bytes, and as a value in
the first. -/
theorem spans_of_accentedText :
    (keySpan? accentedText "clé" = some ⟨19, 4⟩ ∧ Span.Holds ⟨19, 4⟩ accentedText "clé") ∧
      stringSpan? accentedText "clé" = some ⟨11, 4⟩ ∧ Span.Holds ⟨11, 4⟩ accentedText "clé" := by
  obtain ⟨hkeys, hvalues⟩ := spans_sound_complete_first accentedText
  have hkey : keySpan? accentedText "clé" = some ⟨19, 4⟩ := by decide +kernel
  have hvalue : stringSpan? accentedText "clé" = some ⟨11, 4⟩ := by decide +kernel
  have hfirst : ∀ c ∈ "clé".toList.head?, isBlank c = false := by
    intro c hc
    obtain rfl : 'c' = c := by simpa using hc
    decide
  exact ⟨⟨hkey, ((hkeys "clé" hfirst).2 _ hkey).1⟩, hvalue, ((hvalues "clé").2 _ hvalue).1⟩

end DelphiUnits.Text

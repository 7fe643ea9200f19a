import DelphiUnits.Proofs.Json.RoundTrip

/-!
# How deep a text is nested

The nesting of a JSON text is the most arrays and objects that are open at once while it is
read from left to right. It can be seen in the characters alone: `nesting` counts brackets, and
passes over literals since brackets mean nothing in them.

For the text of a textual tree this is the depth of the tree, and the depth is what `Json.fits`
compares with its bound.

## Main results

* `fits_eq_depth_le`: a textual tree fits a bound exactly if it is no deeper;
* `nesting_render`: the nesting of the text of a tree is the depth of the tree.
-/

namespace DelphiUnits.Json

/-! ### Texts -/

/-- Where a text starts. -/
inductive Start where
  /-- Outside of literals. -/
  | outside
  /-- In a literal. -/
  | literal
  /-- In a literal, right behind a backslash. -/
  | escape
  deriving DecidableEq, Repr

/-- The most brackets that are open at once in a text, when `level` are open before it.
**Brackets in a literal do not count.** -/
def mostOpen (level : Nat) : Start → List Char → Nat
  | _, [] => level
  | .escape, _ :: cs => mostOpen level .literal cs
  | .literal, c :: cs =>
    if c = '"' then mostOpen level .outside cs
    else if c = '\\' then mostOpen level .escape cs
    else mostOpen level .literal cs
  | .outside, c :: cs =>
    if c = '"' then mostOpen level .literal cs
    else if c = '[' ∨ c = '\x7b' then mostOpen (level + 1) .outside cs
    else if c = ']' ∨ c = '\x7d' then max level (mostOpen (level - 1) .outside cs)
    else mostOpen level .outside cs

/-- **The nesting of a text**: the most arrays and objects that are open at once. -/
def nesting (s : String) : Nat :=
  mostOpen 0 .outside s.toList

/-- What is open before a text counts. -/
theorem le_mostOpen (level : Nat) (start : Start) (cs : List Char) :
    level ≤ mostOpen level start cs := by
  fun_induction mostOpen level start cs <;> omega

/-- A spelled character neither opens nor closes anything, nor does it end the literal. -/
theorem mostOpen_escapeChar (level : Nat) (c : Char) (rest : List Char) :
    mostOpen level .literal (escapeChar c ++ rest) = mostOpen level .literal rest := by
  unfold escapeChar
  split
  case h_8 hquote hslash _ _ _ _ _ =>
    split
    · next hcontrol =>
      have hdigit : ∀ n < 16, hexDigit n ≠ '"' ∧ hexDigit n ≠ '\\' := by decide
      have hlt : c.toNat < 0x20 := by simpa [isControl] using hcontrol
      obtain ⟨hhigh, hhigh'⟩ := hdigit (c.toNat / 16) (by omega)
      obtain ⟨hlow, hlow'⟩ := hdigit (c.toNat % 16) (by omega)
      simp [mostOpen, hhigh, hhigh', hlow, hlow']
    · rw [List.singleton_append, mostOpen, if_neg hquote, if_neg hslash]
  all_goals simp [mostOpen]

/-- A literal opens nothing. -/
theorem mostOpen_literal (level : Nat) (cs rest : List Char) :
    mostOpen level .literal (cs.flatMap escapeChar ++ '"' :: rest) =
      mostOpen level .outside rest := by
  induction cs with
  | nil => simp [mostOpen]
  | cons c cs ih => rw [List.flatMap_cons, List.append_assoc, mostOpen_escapeChar, ih]

/-- A spelled literal opens nothing. -/
theorem mostOpen_string {s : Literal} (hs : s.isSome) (level : Nat) (rest : List Char) :
    mostOpen level .outside ((Token.string s).spelling.toList ++ rest) =
      mostOpen level .outside rest := by
  obtain ⟨s, rfl⟩ := Option.isSome_iff_exists.1 hs
  rw [spelling_string, List.cons_append, List.append_assoc, List.singleton_append]
  simp only [mostOpen, ↓reduceIte]
  exact mostOpen_literal level s.toList rest

/-- A comma opens nothing. -/
theorem mostOpen_comma (level : Nat) (rest : List Char) :
    mostOpen level .outside (Token.comma.spelling.toList ++ rest) =
      mostOpen level .outside rest := by
  simp [Token.spelling, mostOpen]

/-- A colon opens nothing. -/
theorem mostOpen_colon (level : Nat) (rest : List Char) :
    mostOpen level .outside (Token.colon.spelling.toList ++ rest) =
      mostOpen level .outside rest := by
  simp [Token.spelling, mostOpen]

/-! ### Depth -/

mutual

/-- **The depth of a tree**: how many arrays and objects are inside one another in it. -/
def depth : Json → Nat
  | .null => 0
  | .bool _ => 0
  | .number _ => 0
  | .string _ => 0
  | .array items => depthOfItems items + 1
  | .object members => depthOfMembers members + 1

/-- The depth of the deepest item. -/
def depthOfItems : List Json → Nat
  | [] => 0
  | item :: rest => max item.depth (depthOfItems rest)

/-- The depth of the deepest value. -/
def depthOfMembers : List Member → Nat
  | [] => 0
  | (_, value) :: rest => max value.depth (depthOfMembers rest)

end

mutual

/-- **A textual tree fits a bound exactly if it is no deeper.** -/
theorem fits_eq_depth_le (n : Nat) : ∀ j : Json, j.isTextual → (j.fits n = true ↔ j.depth ≤ n)
  | .null, _ => by simp [fits, depth]
  | .bool _, _ => by simp [fits, depth]
  | .string s, h => by
      rw [fits, depth]
      exact ⟨fun _ => Nat.zero_le n, fun _ => h⟩
  | .array items, h => by
      cases n with
      | zero => simp [fits, depth]
      | succ n =>
          rw [fits, depth, fitsAll_eq_depth_le n items h]
          omega
  | .object members, h => by
      cases n with
      | zero => simp [fits, depth]
      | succ n =>
          rw [fits, depth, fitsMembers_eq_depth_le n members h]
          omega

/-- Textual items fit a bound exactly if none is deeper. -/
theorem fitsAll_eq_depth_le (n : Nat) : ∀ items : List Json, areTextual items →
    (fitsAll n items = true ↔ depthOfItems items ≤ n)
  | [], _ => by simp [fitsAll, depthOfItems]
  | item :: rest, h => by
      simp only [areTextual, Bool.and_eq_true] at h
      rw [fitsAll, depthOfItems, Bool.and_eq_true, fits_eq_depth_le n item h.1,
        fitsAll_eq_depth_le n rest h.2]
      omega

/-- Textual members fit a bound exactly if no value is deeper. -/
theorem fitsMembers_eq_depth_le (n : Nat) : ∀ members : List Member, membersAreTextual members →
    (fitsMembers n members = true ↔ depthOfMembers members ≤ n)
  | [], _ => by simp [fitsMembers, depthOfMembers]
  | (key, value) :: rest, h => by
      simp only [membersAreTextual, Bool.and_eq_true] at h
      rw [fitsMembers, depthOfMembers, Bool.and_eq_true, Bool.and_eq_true,
        fits_eq_depth_le n value h.1.2, fitsMembers_eq_depth_le n rest h.2]
      simp only [h.1.1, true_and]
      omega

end

mutual

/-- Behind the text of a tree as much is open as before it, and in between as much more as the
tree is deep. -/
theorem mostOpen_tokens : ∀ (j : Json) (level : Nat) (rest : List Char), j.isTextual →
    mostOpen level .outside (spelled j.tokens ++ rest) =
      max (level + j.depth) (mostOpen level .outside rest)
  | .null, level, rest, _ => by
      have hle := le_mostOpen level .outside rest
      simp [tokens, Token.spelling, mostOpen, depth]
      omega
  | .bool b, level, rest, _ => by
      have hle := le_mostOpen level .outside rest
      cases b <;> simp [tokens, Token.spelling, mostOpen, depth] <;> omega
  | .string s, level, rest, h => by
      have hle := le_mostOpen level .outside rest
      rw [tokens, spelled_cons, spelled_nil, List.append_nil, mostOpen_string h, depth]
      omega
  | .array items, level, rest, h => by
      rw [tokens, spelled_cons, List.append_assoc, depth]
      have hitems := mostOpen_itemTokens items level rest h
      simpa [Token.spelling, mostOpen, Nat.add_assoc, Nat.add_comm 1] using hitems
  | .object members, level, rest, h => by
      rw [tokens, spelled_cons, List.append_assoc, depth]
      have hmembers := mostOpen_memberTokens members level rest h
      simpa [Token.spelling, mostOpen, Nat.add_assoc, Nat.add_comm 1] using hmembers

/-- The same for the items of an array and its end. -/
theorem mostOpen_itemTokens : ∀ (items : List Json) (level : Nat) (rest : List Char),
    areTextual items →
    mostOpen (level + 1) .outside (spelled (itemTokens items) ++ rest) =
      max (level + 1 + depthOfItems items) (mostOpen level .outside rest)
  | [], level, rest, _ => by simp [itemTokens, Token.spelling, mostOpen, depthOfItems]
  | item :: items, level, rest, h => by
      simp only [areTextual, Bool.and_eq_true] at h
      rw [itemTokens, spelled_append, List.append_assoc, mostOpen_tokens item _ _ h.1,
        mostOpen_moreItemTokens items _ _ h.2, depthOfItems]
      omega

/-- The same for further items of an array and its end. -/
theorem mostOpen_moreItemTokens : ∀ (items : List Json) (level : Nat) (rest : List Char),
    areTextual items →
    mostOpen (level + 1) .outside (spelled (moreItemTokens items) ++ rest) =
      max (level + 1 + depthOfItems items) (mostOpen level .outside rest)
  | [], level, rest, _ => by simp [moreItemTokens, Token.spelling, mostOpen, depthOfItems]
  | item :: items, level, rest, h => by
      simp only [areTextual, Bool.and_eq_true] at h
      rw [moreItemTokens, List.cons_append, spelled_cons, spelled_append, List.append_assoc,
        List.append_assoc]
      rw [mostOpen_comma, mostOpen_tokens item _ _ h.1, mostOpen_moreItemTokens items _ _ h.2,
        depthOfItems]
      omega

/-- The same for the members of an object and its end. -/
theorem mostOpen_memberTokens : ∀ (members : List Member) (level : Nat) (rest : List Char),
    membersAreTextual members →
    mostOpen (level + 1) .outside (spelled (memberTokens members) ++ rest) =
      max (level + 1 + depthOfMembers members) (mostOpen level .outside rest)
  | [], level, rest, _ => by simp [memberTokens, Token.spelling, mostOpen, depthOfMembers]
  | (key, value) :: members, level, rest, h => by
      simp only [membersAreTextual, Bool.and_eq_true] at h
      rw [memberTokens, List.cons_append, List.cons_append, spelled_cons, spelled_cons,
        spelled_append, List.append_assoc, List.append_assoc, List.append_assoc,
        mostOpen_string h.1.1, mostOpen_colon, mostOpen_tokens value _ _ h.1.2,
        mostOpen_moreMemberTokens members _ _ h.2, depthOfMembers]
      omega

/-- The same for further members of an object and its end. -/
theorem mostOpen_moreMemberTokens : ∀ (members : List Member) (level : Nat) (rest : List Char),
    membersAreTextual members →
    mostOpen (level + 1) .outside (spelled (moreMemberTokens members) ++ rest) =
      max (level + 1 + depthOfMembers members) (mostOpen level .outside rest)
  | [], level, rest, _ => by simp [moreMemberTokens, Token.spelling, mostOpen, depthOfMembers]
  | (key, value) :: members, level, rest, h => by
      simp only [membersAreTextual, Bool.and_eq_true] at h
      rw [moreMemberTokens, List.cons_append, List.cons_append, List.cons_append, spelled_cons,
        spelled_cons, spelled_cons, spelled_append, List.append_assoc, List.append_assoc,
        List.append_assoc, List.append_assoc, mostOpen_comma, mostOpen_string h.1.1,
        mostOpen_colon, mostOpen_tokens value _ _ h.1.2,
        mostOpen_moreMemberTokens members _ _ h.2, depthOfMembers]
      omega

end

/-- **The nesting of the text of a tree is its depth.** -/
theorem nesting_render {j : Json} (h : j.isTextual) : nesting j.render = j.depth := by
  have hopen := mostOpen_tokens j 0 [] h
  rw [List.append_nil, mostOpen] at hopen
  rw [nesting, toList_render, hopen]
  omega

end DelphiUnits.Json

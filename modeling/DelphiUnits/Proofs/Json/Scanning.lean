import DelphiUnits.Json.Token

/-!
# Scanning what was spelled

The scanner undoes the spelling of tokens. No white space is needed between them: the end of a
token never depends on what follows it, numbers apart, and so the lemmas here are about
**textual** tokens, those that are no number and whose literals have a text.

A literal is scanned into one unit for each of its characters. Most units are the character
itself; a control character without an escape of its own is scanned as a code, and no such code
is a surrogate, so the units always join to the text that was spelled.

## Main results

* `scanString_flatMap`, `joinUnits_literalUnit`: a spelled literal scans back to its text;
* `scan_spelled`: textual tokens scan back to themselves.
-/

namespace DelphiUnits.Json

/-! ### Literals -/

/-- The unit that a spelled character is scanned as. -/
def literalUnit (c : Char) : StringUnit :=
  if isControl c ∧ c ∉ ['\x08', '\x0c', '\n', '\r', '\t'] then .code c.toNat else .char c

/-- The code of a control character, as it is spelled. -/
theorem hexValue4?_control :
    ∀ n < 0x20, hexValue4? '0' '0' (hexDigit (n / 16)) (hexDigit (n % 16)) = some n := by
  decide

/-- **A spelled character** is scanned as one unit. -/
theorem scanString_escapeChar (acc : List StringUnit) (c : Char) (rest : List Char) :
    scanString acc (escapeChar c ++ rest) = scanString (literalUnit c :: acc) rest := by
  unfold escapeChar
  split
  case h_8 hquote hslash hb hf hn hr ht =>
    have hnotSimple : c ∉ ['\x08', '\x0c', '\n', '\r', '\t'] := by
      simp only [List.mem_cons, List.not_mem_nil, or_false]
      rintro (rfl | rfl | rfl | rfl | rfl) <;> contradiction
    split
    · next hcontrol =>
      have hlt : c.toNat < 0x20 := by simpa [isControl] using hcontrol
      simp only [List.cons_append, List.nil_append, scanString, hexValue4?_control _ hlt,
        literalUnit, hcontrol, hnotSimple, not_false_eq_true, and_self, ↓reduceIte]
    · next hcontrol =>
      have hunit : literalUnit c = .char c := by simp [literalUnit, hcontrol]
      rw [hunit, List.singleton_append, scanString.eq_def]
      split <;> simp_all
  all_goals simp [scanString, simpleEscape?, literalUnit, isControl]

/-- A spelled text is scanned as one unit for each of its characters. -/
theorem scanString_flatMap (acc : List StringUnit) (cs rest : List Char) :
    scanString acc (cs.flatMap escapeChar ++ '"' :: rest) =
      some (acc.reverse ++ cs.map literalUnit, rest) := by
  induction cs generalizing acc with
  | nil => simp [scanString]
  | cons c cs ih =>
      rw [List.flatMap_cons, List.append_assoc, scanString_escapeChar, ih]
      simp

/-- A code that is no surrogate joins as its character. -/
theorem joinUnits_code {n : Nat} (acc : List Char) (rest : List StringUnit)
    (hhigh : isHighSurrogate n = false) (hlow : isLowSurrogate n = false) :
    joinUnits acc (.code n :: rest) = joinUnits (Char.ofNat n :: acc) rest := by
  cases rest with
  | nil => simp [joinUnits, hhigh, hlow]
  | cons u rest =>
      cases u with
      | char c => simp [joinUnits, hhigh, hlow]
      | code m => simp [joinUnits, hhigh, hlow]

/-- The units of a spelled text join to the text. -/
theorem joinUnits_literalUnit (acc cs : List Char) :
    joinUnits acc (cs.map literalUnit) = some (String.ofList (acc.reverse ++ cs)) := by
  induction cs generalizing acc with
  | nil => simp [joinUnits]
  | cons c cs ih =>
      have hstep : joinUnits acc (literalUnit c :: cs.map literalUnit) =
          joinUnits (c :: acc) (cs.map literalUnit) := by
        unfold literalUnit
        split
        · next h =>
          have hlt : c.toNat < 0x20 := by simpa [isControl] using h.1
          rw [joinUnits_code _ _ (by simp [isHighSurrogate]; omega)
            (by simp [isLowSurrogate]; omega), Char.ofNat_toNat]
        · rfl
      rw [List.map_cons, hstep, ih]
      simp

/-! ### Tokens -/

/-- Whether a token is **textual**: it is no number, and a literal with a text if it is one. -/
def Token.isTextual : Token → Bool
  | .number _ => false
  | .string s => s.isSome
  | _ => true

/-- The characters that tokens are spelled with. -/
def spelled (tokens : List Token) : List Char :=
  tokens.flatMap fun t => t.spelling.toList

@[simp] theorem spelled_nil : spelled [] = [] := rfl

@[simp] theorem spelled_cons (t : Token) (ts : List Token) :
    spelled (t :: ts) = t.spelling.toList ++ spelled ts := rfl

@[simp] theorem spelled_append (a b : List Token) : spelled (a ++ b) = spelled a ++ spelled b :=
  List.flatMap_append

/-- How a literal with a text is spelled. -/
theorem spelling_string (s : String) :
    (Token.string (some s)).spelling.toList = '"' :: (s.toList.flatMap escapeChar ++ ['"']) := by
  simp [Token.spelling, quote]

/-- The spelling of a textual token starts with no space. -/
theorem spelling_eq_cons {t : Token} (ht : t.isTextual) :
    ∃ c cs, t.spelling.toList = c :: cs ∧ isSpace c = false := by
  cases t with
  | number n => cases ht
  | string s =>
      obtain ⟨s, rfl⟩ := Option.isSome_iff_exists.1 ht
      exact ⟨_, _, spelling_string s, by decide⟩
  | bool b => cases b <;> exact ⟨_, _, rfl, by decide⟩
  | _ => exact ⟨_, _, rfl, by decide⟩

/-- **A spelled token scans back to itself**, whatever follows it. -/
theorem scanToken_spelling {t : Token} (ht : t.isTextual) (rest : List Char) :
    scanToken (t.spelling.toList ++ rest) = some (t, rest) := by
  cases t with
  | number n => cases ht
  | string s =>
      obtain ⟨s, rfl⟩ := Option.isSome_iff_exists.1 ht
      rw [spelling_string, List.cons_append, List.append_assoc, List.singleton_append]
      simp only [scanToken, scanString_flatMap, List.reverse_nil, List.nil_append,
        Option.map_some, joinUnits_literalUnit, String.ofList_toList]
  | bool b => cases b <;> rfl
  | _ => rfl

/-- Scanning goes on behind a spelled token. -/
theorem scanFrom_spelling (acc : List Token) {t : Token} (ht : t.isTextual) (rest : List Char) :
    scanFrom acc (t.spelling.toList ++ rest) = scanFrom (t :: acc) rest := by
  obtain ⟨c, cs, hspelling, hspace⟩ := spelling_eq_cons ht
  have hscan := scanToken_spelling ht rest
  rw [hspelling, List.cons_append] at hscan ⊢
  rw [scanFrom]
  simp only [hspace, Bool.false_eq_true, ↓reduceIte]
  split
  · next hnone => rw [hscan] at hnone; cases hnone
  · next hsome => rw [hscan] at hsome; cases hsome; rfl

/-- Textual tokens are scanned one after the other. -/
theorem scanFrom_spelled (acc ts : List Token) (h : ∀ t ∈ ts, t.isTextual) :
    scanFrom acc (spelled ts) = some (acc.reverse ++ ts) := by
  induction ts generalizing acc with
  | nil =>
      rw [spelled_nil, scanFrom, List.append_nil]
  | cons t ts ih =>
      rw [spelled_cons, scanFrom_spelling acc (h t List.mem_cons_self),
        ih _ fun t ht => h t (List.mem_cons_of_mem _ ht)]
      simp

/-- **Textual tokens scan back to themselves.** -/
theorem scan_spelled {ts : List Token} (h : ∀ t ∈ ts, t.isTextual) :
    scan (spelled ts) = some ts :=
  scanFrom_spelled [] ts h

end DelphiUnits.Json

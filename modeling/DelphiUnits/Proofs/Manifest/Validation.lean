import DelphiUnits.Manifest.Validation
import DelphiUnits.Proofs.ReservedWords

/-!
# Which manifests are accepted

A manifest that can be decoded is accepted exactly if it follows four rules, about its main file,
its indentation, its system prefixes and the words it reserves. What the rules are is said here
without the checks, as `IsValid`. A manifest that breaks some of them is refused for the first one
it breaks, in this order, and of several bad words for the first in its list: `Objection` has one
constructor for each rule, which tells the error and where in the text it is shown.

An accepted manifest can be relied on. A width other than two, four and eight would be taken for
four by whoever indents by it, but there is none. Every word it reserves is reserved, in all its
spellings.

## Main results

* `wordFault?_eq_some_iff`, `wordFault?_eq_none_iff`: which words are identifiers, and what is wrong
  with the others;
* `validate_eq_ok_iff`, `validate_eq_error_iff`: the checks follow the rules;
* `parse_judges_by_rules`: what is accepted and what is refused, and what an accepted manifest
  leads to.
-/

namespace DelphiUnits

namespace Manifest

/-! ### Names of source files -/

/-- A name is that of a **source file**: it ends in `.ts`. -/
def IsSourceName (name : String) : Prop :=
  ∃ stem, name = stem ++ ".ts"

/-- Source files are told by the end of their names. -/
theorem isSourceFile_iff {name : String} : isSourceFile name = true ↔ IsSourceName name := by
  rw [isSourceFile, List.isSuffixOf_iff_suffix]
  constructor
  · rintro ⟨front, hfront⟩
    refine ⟨String.ofList front, ?_⟩
    rw [← String.toList_inj, String.toList_append, String.toList_ofList, ← hfront]
    rfl
  · rintro ⟨stem, rfl⟩
    rw [String.toList_append]
    exact List.suffix_append _ _

/-! ### Identifiers -/

/-- A character that an identifier may start with. -/
def IsInitial (c : Char) : Prop :=
  'A' ≤ c ∧ c ≤ 'Z' ∨ 'a' ≤ c ∧ c ≤ 'z' ∨ c = '_'

/-- A character that an identifier may go on with. -/
def IsFollowing (c : Char) : Prop :=
  IsInitial c ∨ '0' ≤ c ∧ c ≤ '9'

/-- A word is an **identifier**: `[A-Za-z_][A-Za-z0-9_]*`. -/
def IsIdentifier (word : String) : Prop :=
  ∃ c rest, word.toList = c :: rest ∧ IsInitial c ∧ ∀ d ∈ rest, IsFollowing d

/-- **What is wrong with a word** that is no identifier. -/
inductive HasFault : String → WordFault → Prop
  /-- It has no characters. -/
  | empty : HasFault "" .empty
  /-- It starts with a character that no identifier starts with. -/
  | badStart {word : String} {c : Char} {rest : List Char} : word.toList = c :: rest →
      ¬IsInitial c → HasFault word .badStart
  /-- It starts like an identifier, but has a character that none goes on with. -/
  | badCharacter {word : String} {c d : Char} {rest : List Char} : word.toList = c :: rest →
      IsInitial c → d ∈ rest → ¬IsFollowing d → HasFault word .badCharacter

/-- Letters and the underscore are what an identifier may start with. -/
theorem isInitial_iff {c : Char} : (c.isAlpha || c == '_') = true ↔ IsInitial c := by
  have hupper : c.isUpper = decide ('A' ≤ c ∧ c ≤ 'Z') := rfl
  have hlower : c.isLower = (decide ('a' ≤ c) && decide (c ≤ 'z')) := rfl
  have halpha : c.isAlpha = (c.isUpper || c.isLower) := rfl
  rw [halpha, hupper, hlower, IsInitial]
  simp only [Bool.or_eq_true, Bool.and_eq_true, decide_eq_true_eq, beq_iff_eq, or_assoc]

/-- Word characters are what an identifier may go on with. -/
theorem isWordChar_iff {c : Char} : Text.isWordChar c = true ↔ IsFollowing c := by
  rw [IsFollowing, ← isInitial_iff, Text.isWordChar, Char.isAlphanum]
  simp only [Char.isDigit, Bool.or_eq_true, Bool.and_eq_true, decide_eq_true_eq]
  constructor
  · rintro ((halpha | hdigit) | hline)
    · exact .inl (.inl halpha)
    · exact .inr hdigit
    · exact .inl (.inr hline)
  · rintro ((halpha | hline) | hdigit)
    · exact .inl (.inl halpha)
    · exact .inr hline
    · exact .inl (.inr hdigit)

/-- **The fault of a word** is the one it has. -/
theorem wordFault?_eq_some_iff {word : String} {fault : WordFault} :
    wordFault? word = some fault ↔ HasFault word fault := by
  rw [wordFault?]
  constructor
  · intro h
    split at h
    · next hempty =>
      obtain rfl := Option.some.inj h
      obtain rfl := String.toList_eq_nil_iff.mp hempty
      exact .empty
    · next c rest hword =>
      split at h
      · next hc =>
        split at h
        · cases h
        · next hrest =>
          obtain rfl := Option.some.inj h
          obtain ⟨d, hd, hnot⟩ : ∃ d ∈ rest, ¬Text.isWordChar d = true := by simpa using hrest
          exact .badCharacter hword (isInitial_iff.mp hc) hd (mt isWordChar_iff.mpr hnot)
      · next hc =>
        obtain rfl := Option.some.inj h
        exact .badStart hword (mt isInitial_iff.mpr hc)
  · rintro (_ | ⟨hword, hc⟩ | ⟨hword, hc, hd, hnot⟩)
    · rfl
    · rw [hword]
      exact if_neg (mt isInitial_iff.mp hc)
    · have hrest := fun hall => hnot (isWordChar_iff.mp (List.all_eq_true.mp hall _ hd))
      rw [hword]
      simp only [if_pos (isInitial_iff.mpr hc), if_neg hrest]

/-- **A word without a fault** is an identifier. -/
theorem wordFault?_eq_none_iff {word : String} :
    wordFault? word = none ↔ IsIdentifier word := by
  rw [wordFault?, IsIdentifier]
  rcases word.toList with _ | ⟨c, rest⟩
  · simp
  · by_cases hc : (c.isAlpha || c == '_') = true
    · simp only [if_pos hc, ite_eq_left_iff, reduceCtorEq, imp_false, Classical.not_not,
        List.all_eq_true, isWordChar_iff]
      constructor
      · exact fun hrest => ⟨c, rest, rfl, isInitial_iff.mp hc, hrest⟩
      · rintro ⟨_, _, ⟨⟩, -, hrest⟩
        exact hrest
    · simp only [if_neg hc, reduceCtorEq, false_iff]
      rintro ⟨_, _, ⟨⟩, hinitial, -⟩
      exact hc (isInitial_iff.mpr hinitial)

/-! ### Rules -/

/-- A main file is **allowed** if it is a source file. There need not be one. -/
def IsAllowedMain (main : Option String) : Prop :=
  ∀ name, main = some name → IsSourceName name

/-- An indentation is **allowed** if it is a tab, or two, four or eight spaces. -/
def IsAllowedIndent (indent : Indent) : Prop :=
  ∀ width, indent = .spaces width → width = 2 ∨ width = 4 ∨ width = 8

/-- **The rules for manifests.** -/
structure IsValid (m : Manifest) : Prop where
  /-- The main file is a source file. -/
  main : IsAllowedMain m.locations.main
  /-- The indentation is one that can be chosen. -/
  indent : IsAllowedIndent m.rules.indent
  /-- No system prefix is empty. -/
  prefixes : ∀ p ∈ m.rules.systemPrefixes, p ≠ ""
  /-- The words to be reserved are identifiers. -/
  words : ∀ word ∈ m.rules.reservedWords, IsIdentifier word

/-- **Why a manifest is refused**: the first rule it breaks, with the error and where it is shown in
the text. -/
inductive Objection (content : String) (m : Manifest) : Error → Prop
  /-- The main file is no source file. It is shown where it stands between quotes. -/
  | main {name : String} : m.locations.main = some name → ¬IsSourceName name →
      Objection content m (.badMain name (Text.stringSpan? content name))
  /-- The width cannot be chosen. It is shown at the key. -/
  | indent {width : Nat} : IsAllowedMain m.locations.main → m.rules.indent = .spaces width →
      ¬(width = 2 ∨ width = 4 ∨ width = 8) →
      Objection content m (.badIndent width (Text.keySpan? content "indent"))
  /-- A system prefix is empty. They are shown at the key. -/
  | prefixes : IsAllowedMain m.locations.main → IsAllowedIndent m.rules.indent →
      "" ∈ m.rules.systemPrefixes →
      Objection content m (.emptyPrefix (Text.keySpan? content "system_prefixes"))
  /-- A word is no identifier, and all before it are. It is shown where it stands between quotes. -/
  | word {before after : List String} {word : String} {fault : WordFault} :
      IsAllowedMain m.locations.main → IsAllowedIndent m.rules.indent →
      (∀ p ∈ m.rules.systemPrefixes, p ≠ "") →
      m.rules.reservedWords = before ++ word :: after → (∀ w ∈ before, IsIdentifier w) →
      HasFault word fault →
      Objection content m (.badWord word fault (Text.stringSpan? content word))

/-! ### Checks -/

variable {content : String} {m : Manifest} {e : Error}

/-- Checks that are made one after the other succeed if each does. -/
theorem seq_eq_ok_iff {first second : Except Error Unit} :
    (first >>= fun _ => second) = .ok () ↔ first = .ok () ∧ second = .ok () := by
  rcases first with _ | _ <;> simp [bind, Except.bind]

/-- They fail with the first that does. -/
theorem seq_eq_error_iff {first second : Except Error Unit} :
    (first >>= fun _ => second) = .error e ↔
      first = .error e ∨ first = .ok () ∧ second = .error e := by
  rcases first with _ | _ <;> simp [bind, Except.bind]

/-- When the check of the main file succeeds. -/
theorem checkMain_eq_ok_iff {main : Option String} :
    checkMain content main = .ok () ↔ IsAllowedMain main := by
  rcases main with _ | name
  · simp [checkMain, IsAllowedMain]
  · simp [checkMain, IsAllowedMain, ← isSourceFile_iff]

/-- When it fails. -/
theorem checkMain_eq_error_iff {main : Option String} :
    checkMain content main = .error e ↔ ∃ name, main = some name ∧ ¬IsSourceName name ∧
      e = .badMain name (Text.stringSpan? content name) := by
  rcases main with _ | name
  · simp [checkMain]
  · simp only [checkMain, Option.some.injEq, exists_eq_left', ← isSourceFile_iff]
    by_cases hname : isSourceFile name = true
    · simp [hname]
    · rw [if_neg hname, Except.error.injEq, eq_comm]
      exact (and_iff_right hname).symm

/-- The widths that can be chosen. -/
theorem mem_widths_iff {width : Nat} :
    width ∈ Indent.widths ↔ width = 2 ∨ width = 4 ∨ width = 8 := by
  simp [Indent.widths]

/-- When the check of the indentation succeeds. -/
theorem checkIndent_eq_ok_iff {indent : Indent} :
    checkIndent content indent = .ok () ↔ IsAllowedIndent indent := by
  rcases indent with _ | width
  · simp [checkIndent, IsAllowedIndent]
  · simp [checkIndent, IsAllowedIndent, ← mem_widths_iff]

/-- When it fails. -/
theorem checkIndent_eq_error_iff {indent : Indent} :
    checkIndent content indent = .error e ↔ ∃ width, indent = .spaces width ∧
      ¬(width = 2 ∨ width = 4 ∨ width = 8) ∧
      e = .badIndent width (Text.keySpan? content "indent") := by
  rcases indent with _ | width
  · simp [checkIndent]
  · simp only [checkIndent, Indent.spaces.injEq, exists_eq_left', ← mem_widths_iff]
    by_cases hwidth : width ∈ Indent.widths
    · simp [hwidth]
    · rw [if_neg hwidth, Except.error.injEq, eq_comm]
      exact (and_iff_right hwidth).symm

/-- When the check of the system prefixes succeeds. -/
theorem checkPrefixes_eq_ok_iff {systemPrefixes : List String} :
    checkPrefixes content systemPrefixes = .ok () ↔ ∀ p ∈ systemPrefixes, p ≠ "" := by
  have hempty : (∀ p ∈ systemPrefixes, p ≠ "") ↔ "" ∉ systemPrefixes :=
    ⟨fun h hmem => h "" hmem rfl, fun h p hp hp' => h (hp' ▸ hp)⟩
  simp [hempty, checkPrefixes]

/-- When it fails. -/
theorem checkPrefixes_eq_error_iff {systemPrefixes : List String} :
    checkPrefixes content systemPrefixes = .error e ↔ "" ∈ systemPrefixes ∧
      e = .emptyPrefix (Text.keySpan? content "system_prefixes") := by
  by_cases hempty : "" ∈ systemPrefixes <;> simp [checkPrefixes, hempty, eq_comm]

/-- The error of a word that is no identifier. -/
def wordError? (content word : String) : Option Error :=
  (wordFault? word).map fun fault => .badWord word fault (Text.stringSpan? content word)

/-- **Words are checked up to the first** that has an error. -/
theorem checkWords_eq (content : String) (words : List String) :
    checkWords content words =
      match words.findSome? (wordError? content) with
      | none => .ok ()
      | some e => .error e := by
  induction words with
  | nil => rfl
  | cons word rest ih =>
      rw [checkWords, checkWord, List.findSome?_cons, wordError?]
      rcases wordFault? word with _ | fault
      · exact ih
      · rfl

/-- When the check of the words succeeds. -/
theorem checkWords_eq_ok_iff {words : List String} :
    checkWords content words = .ok () ↔ ∀ word ∈ words, IsIdentifier word := by
  have hnone : (∀ word ∈ words, IsIdentifier word) ↔
      words.findSome? (wordError? content) = none := by
    simp only [List.findSome?_eq_none_iff, wordError?, Option.map_eq_none_iff,
      wordFault?_eq_none_iff]
  rw [hnone, checkWords_eq]
  rcases words.findSome? (wordError? content) with _ | error <;> simp

/-- When it fails: at the first word that is no identifier. -/
theorem checkWords_eq_error_iff {words : List String} :
    checkWords content words = .error e ↔ ∃ before word after fault,
      words = before ++ word :: after ∧ (∀ w ∈ before, IsIdentifier w) ∧ HasFault word fault ∧
      e = .badWord word fault (Text.stringSpan? content word) := by
  have hsome : checkWords content words = .error e ↔
      words.findSome? (wordError? content) = some e := by
    rw [checkWords_eq]
    rcases words.findSome? (wordError? content) with _ | error <;> simp
  rw [hsome, List.findSome?_eq_some_iff]
  simp only [wordError?, Option.map_eq_some_iff, Option.map_eq_none_iff, wordFault?_eq_some_iff,
    wordFault?_eq_none_iff]
  constructor
  · rintro ⟨before, word, after, hwords, ⟨fault, hfault, rfl⟩, hbefore⟩
    exact ⟨before, word, after, fault, hwords, hbefore, hfault, rfl⟩
  · rintro ⟨before, word, after, fault, hwords, hbefore, hfault, rfl⟩
    exact ⟨before, word, after, hwords, ⟨fault, hfault, rfl⟩, hbefore⟩

/-- **The checks accept** the manifests that follow the rules. -/
theorem validate_eq_ok_iff (content : String) (m : Manifest) :
    validate content m = .ok () ↔ IsValid m := by
  rw [validate, seq_eq_ok_iff, seq_eq_ok_iff, seq_eq_ok_iff, checkMain_eq_ok_iff,
    checkIndent_eq_ok_iff, checkPrefixes_eq_ok_iff, checkWords_eq_ok_iff]
  constructor
  · rintro ⟨hmain, hindent, hprefixes, hwords⟩
    exact ⟨hmain, hindent, hprefixes, hwords⟩
  · rintro ⟨hmain, hindent, hprefixes, hwords⟩
    exact ⟨hmain, hindent, hprefixes, hwords⟩

/-- **The checks refuse** a manifest for the first rule it breaks. -/
theorem validate_eq_error_iff : validate content m = .error e ↔ Objection content m e := by
  rw [validate, seq_eq_error_iff, seq_eq_error_iff, seq_eq_error_iff, checkMain_eq_ok_iff,
    checkIndent_eq_ok_iff, checkPrefixes_eq_ok_iff, checkMain_eq_error_iff,
    checkIndent_eq_error_iff, checkPrefixes_eq_error_iff, checkWords_eq_error_iff]
  constructor
  · rintro (⟨name, hname, hnot, rfl⟩ | ⟨hmain, ⟨width, hwidth, hnot, rfl⟩ | ⟨hindent,
      ⟨hempty, rfl⟩ | ⟨hprefixes, before, word, after, fault, hwords, hbefore, hfault, rfl⟩⟩⟩)
    · exact .main hname hnot
    · exact .indent hmain hwidth hnot
    · exact .prefixes hmain hindent hempty
    · exact .word hmain hindent hprefixes hwords hbefore hfault
  · rintro (⟨hname, hnot⟩ | ⟨hmain, hwidth, hnot⟩ | ⟨hmain, hindent, hempty⟩ |
      ⟨hmain, hindent, hprefixes, hwords, hbefore, hfault⟩)
    · exact .inl ⟨_, hname, hnot, rfl⟩
    · exact .inr ⟨hmain, .inl ⟨_, hwidth, hnot, rfl⟩⟩
    · exact .inr ⟨hmain, .inr ⟨hindent, .inl ⟨hempty, rfl⟩⟩⟩
    · exact .inr ⟨hmain, .inr ⟨hindent, .inr ⟨hprefixes, _, _, _, _, hwords, hbefore, hfault,
        rfl⟩⟩⟩

/-- What can be decoded is checked, and nothing more. -/
theorem parse_of_decode? (h : decode? content = some m) :
    parse content = (validate content m).map fun _ => m := by
  simp only [parse, h]
  rcases validate content m with error | _ <;> rfl

/-- **An accepted manifest** is what was decoded, and follows the rules. -/
theorem isValid_of_parse (h : parse content = .ok m) : decode? content = some m ∧ IsValid m := by
  rcases hdecoded : decode? content with _ | decoded
  · simp [parse, hdecoded] at h
  · rw [parse_of_decode? hdecoded] at h
    rcases hchecked : validate content decoded with error | _ <;> rw [hchecked] at h
    · cases h
    · obtain rfl : decoded = m := Except.ok.inj h
      exact ⟨rfl, (validate_eq_ok_iff content decoded).mp hchecked⟩

/-! ### What a manifest leads to -/

/-- **An allowed width is used as it is**: the indentation is as many spaces. -/
theorem text_spaces {width : Nat} (h : IsAllowedIndent (.spaces width)) :
    (Indent.spaces width).text = String.ofList (List.replicate width ' ') := by
  rcases h width rfl with rfl | rfl | rfl <;> decide

/-- **Which names a manifest reserves**: the built-in words and its own. -/
theorem contains_settings_iff {inputRoot : Path} {name : String} :
    (m.settings inputRoot).reservedWords.contains name = true ↔
      ∃ word, (word ∈ ReservedWords.builtInWords ∨ word ∈ m.rules.reservedWords) ∧
        Text.sameIgnoringCase word name = true := by
  rw [settings, ReservedWords.contains_insertMany_iff, ReservedWords.contains_iff]
  constructor
  · rintro (⟨word, hword, hsame⟩ | ⟨word, hword, hsame⟩)
    · exact ⟨word, .inl hword, hsame⟩
    · exact ⟨word, .inr hword, hsame⟩
  · rintro ⟨word, hword | hword, hsame⟩
    · exact .inl ⟨word, hword, hsame⟩
    · exact .inr ⟨word, hword, hsame⟩

/-- **Manifests are judged by the rules.** A text that can be decoded gives a manifest exactly if
the rules are followed, and that manifest. Otherwise it gives the error of the first rule that is
broken. An accepted manifest indents by one tab or by as many spaces as it says, and reserves its
words and the built-in ones, whatever their letter case. -/
theorem parse_judges_by_rules {content : String} {m : Manifest} (h : decode? content = some m) :
    (∀ m', parse content = .ok m' ↔ m' = m ∧ IsValid m) ∧
    (∀ e, parse content = .error e ↔ Objection content m e) ∧
    (parse content = .ok m → ∀ inputRoot,
      (m.rules.indent = .tab → (m.settings inputRoot).indent.text = "\t") ∧
      (∀ width, m.rules.indent = .spaces width → (width = 2 ∨ width = 4 ∨ width = 8) ∧
        (m.settings inputRoot).indent.text = String.ofList (List.replicate width ' ')) ∧
      ∀ name, (m.settings inputRoot).reservedWords.contains name = true ↔
        ∃ word, (word ∈ ReservedWords.builtInWords ∨ word ∈ m.rules.reservedWords) ∧
          Text.sameIgnoringCase word name = true) := by
  refine ⟨fun m' => ?_, fun e => ?_, fun haccepted inputRoot => ⟨fun htab => ?_, ?_, ?_⟩⟩
  · rw [← validate_eq_ok_iff content m, parse_of_decode? h]
    rcases validate content m with error | _ <;> simp [Except.map, eq_comm]
  · rw [← validate_eq_error_iff, parse_of_decode? h]
    rcases validate content m with error | _ <;> simp [Except.map]
  · rw [settings, htab]
    rfl
  · intro width hwidth
    have hindent := (isValid_of_parse haccepted).2.indent
    refine ⟨hindent width hwidth, ?_⟩
    rw [settings, hwidth]
    exact text_spaces (hwidth ▸ hindent)
  · exact fun name => contains_settings_iff

/-- A text of a manifest with a width that cannot be chosen and a word that is no identifier. -/
def hastyText : String :=
  "# é\n[translate]\nindent = 3\nreserved_keywords = [\"9\"]\n"

/-- The manifest it decodes to. -/
def hastyManifest : Manifest :=
  ⟨.default, ⟨["@delphi/"], ["9"], .spaces 3⟩⟩

/-- A text of a manifest with a width and a word. -/
def carefulText : String :=
  "[translate]\nindent = 2\nreserved_keywords = [\"label\"]\n"

/-- The manifest it decodes to. -/
def carefulManifest : Manifest :=
  ⟨.default, ⟨["@delphi/"], ["label"], .spaces 2⟩⟩

/-- The careful manifest follows the rules. -/
theorem isValid_carefulManifest : IsValid carefulManifest where
  main := by simp [IsAllowedMain, carefulManifest, Locations.default]
  indent := by simp [IsAllowedIndent, carefulManifest]
  prefixes := by decide
  words := by
    intro word hword
    obtain rfl := List.mem_singleton.mp hword
    exact wordFault?_eq_none_iff.mp (by decide)

/-- The careful text decodes to the careful manifest. -/
theorem decode?_carefulText : decode? carefulText = some carefulManifest := by
  decide +kernel

/-- A width is refused before the words are looked at, and shown at the bytes of its key. A manifest
that follows the rules is accepted, and indents by two spaces. -/
theorem parse_judges_hasty_and_careful :
    decode? hastyText = some hastyManifest ∧ decode? carefulText = some carefulManifest ∧
      parse hastyText = .error (.badIndent 3 (some ⟨17, 6⟩)) ∧
      parse carefulText = .ok carefulManifest ∧
      (carefulManifest.settings ⟨"in"⟩).indent.text = "  " ∧
      (carefulManifest.settings ⟨"in"⟩).reservedWords.contains "LABEL" = true := by
  have hhasty : decode? hastyText = some hastyManifest := by decide +kernel
  have haccepted :=
    ((parse_judges_by_rules decode?_carefulText).1 _).mpr ⟨rfl, isValid_carefulManifest⟩
  obtain ⟨-, hwidth, hwords⟩ := (parse_judges_by_rules decode?_carefulText).2.2 haccepted ⟨"in"⟩
  have hspan : Text.keySpan? hastyText "indent" = some ⟨17, 6⟩ := by decide
  refine ⟨hhasty, decode?_carefulText, ?_, haccepted, (hwidth 2 rfl).2,
    (hwords _).mpr ⟨"label", .inr List.mem_cons_self, by decide⟩⟩
  have hmain : IsAllowedMain hastyManifest.locations.main := by
    simp [IsAllowedMain, hastyManifest, Locations.default]
  rw [← hspan]
  exact ((parse_judges_by_rules hhasty).2.1 _).mpr (.indent hmain rfl (by decide))

end Manifest

end DelphiUnits

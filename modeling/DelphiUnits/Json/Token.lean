import DelphiUnits.Json.Basic
import DelphiUnits.Text.Chars

/-!
# JSON tokens

A JSON text is a sequence of tokens with white space between them. This module has the
tokens, their spelling, and the scanner that cuts a text into them.

A string literal is scanned into units, one for each character or escape. Two units that
escape a surrogate pair stand for one character; a surrogate that has no partner leaves the
literal without a text.
-/

namespace DelphiUnits.Json

/-- A token. -/
inductive Token where
  | openArray
  | closeArray
  | openObject
  | closeObject
  | comma
  | colon
  | null
  | bool (value : Bool)
  | number (value : Number)
  | string (text : Literal)
  deriving DecidableEq

/-! ### String literals -/

/-- A unit of a string literal: a character, or a code that is escaped in hexadecimal. -/
inductive StringUnit where
  | char (c : Char)
  | code (n : Nat)
  deriving DecidableEq

/-- Whether a code is the first half of a surrogate pair. -/
def isHighSurrogate (n : Nat) : Bool := 0xD800 ≤ n && n < 0xDC00

/-- Whether a code is the second half of a surrogate pair. -/
def isLowSurrogate (n : Nat) : Bool := 0xDC00 ≤ n && n < 0xE000

/-- The character of a surrogate pair. -/
def pairedChar (high low : Nat) : Char :=
  Char.ofNat (0x10000 + (high - 0xD800) * 0x400 + (low - 0xDC00))

/-- The **text of the units** of a literal, after `acc` in reverse; none if a surrogate has
no partner. -/
def joinUnits (acc : List Char) : List StringUnit → Literal
  | [] => some (String.ofList acc.reverse)
  | .char c :: rest => joinUnits (c :: acc) rest
  | [.code n] =>
    if isHighSurrogate n || isLowSurrogate n then none
    else some (String.ofList (Char.ofNat n :: acc).reverse)
  | .code n :: .code m :: rest =>
    if isHighSurrogate n then
      if isLowSurrogate m then joinUnits (pairedChar n m :: acc) rest else none
    else if isLowSurrogate n then none
    else joinUnits (Char.ofNat n :: acc) (.code m :: rest)
  | .code n :: .char c :: rest =>
    if isHighSurrogate n || isLowSurrogate n then none
    else joinUnits (c :: Char.ofNat n :: acc) rest

/-- The character that a letter after a backslash stands for. -/
def simpleEscape? : Char → Option Char
  | '"' => some '"'
  | '\\' => some '\\'
  | '/' => some '/'
  | 'b' => some '\x08'
  | 'f' => some '\x0c'
  | 'n' => some '\n'
  | 'r' => some '\r'
  | 't' => some '\t'
  | _ => none

/-- The value of four hexadecimal digits. -/
def hexValue4? (a b c d : Char) : Option Nat := do
  let a ← Text.hexValue? a
  let b ← Text.hexValue? b
  let c ← Text.hexValue? c
  let d ← Text.hexValue? d
  some (((a * 16 + b) * 16 + c) * 16 + d)

/-- Whether a character must not stand in a literal unescaped. -/
def isControl (c : Char) : Bool := c.toNat < 0x20

/-- **Scan a literal** from behind its opening quote. The units so far are in `acc`, in
reverse. -/
def scanString (acc : List StringUnit) : List Char → Option (List StringUnit × List Char)
  | [] => none
  | '"' :: rest => some (acc.reverse, rest)
  | '\\' :: 'u' :: a :: b :: c :: d :: rest =>
    match hexValue4? a b c d with
    | some n => scanString (.code n :: acc) rest
    | none => none
  | '\\' :: e :: rest =>
    match simpleEscape? e with
    | some c => scanString (.char c :: acc) rest
    | none => none
  | c :: rest => if isControl c then none else scanString (.char c :: acc) rest

/-! ### Numbers -/

/-- The decimal digits at the start of a text, and what follows them. -/
def spanDigits (cs : List Char) : List Char × List Char :=
  (cs.takeWhile Char.isDigit, cs.dropWhile Char.isDigit)

/-- Whether digits can be the integer part of a number: there is one, and a zero comes first
only if it stands alone. -/
def isIntegerPart : List Char → Bool
  | [] => false
  | ['0'] => true
  | c :: _ => c != '0'

/-- Scan an optional fraction. -/
def scanFraction : List Char → Option (List Char × List Char)
  | '.' :: rest =>
    match spanDigits rest with
    | ([], _) => none
    | (digits, rest) => some (digits, rest)
  | cs => some ([], cs)

/-- Scan the optional sign of an exponent. -/
def scanSign : List Char → Bool × List Char
  | '-' :: rest => (true, rest)
  | '+' :: rest => (false, rest)
  | cs => (false, cs)

/-- Scan an optional exponent. -/
def scanExponent : List Char → Option (Option (Bool × List Char) × List Char)
  | [] => some (none, [])
  | c :: rest =>
    if c = 'e' ∨ c = 'E' then
      let (negative, rest) := scanSign rest
      match spanDigits rest with
      | ([], _) => none
      | (digits, rest) => some (some (negative, digits), rest)
    else some (none, c :: rest)

/-- Scan a number from behind its sign. -/
def scanMagnitude (negative : Bool) (cs : List Char) : Option (Number × List Char) :=
  let (integer, rest) := spanDigits cs
  if isIntegerPart integer then do
    let (fraction, rest) ← scanFraction rest
    let (exponent, rest) ← scanExponent rest
    some (⟨negative, integer, fraction, exponent⟩, rest)
  else none

/-- **Scan a number.** -/
def scanNumber : List Char → Option (Number × List Char)
  | '-' :: rest => scanMagnitude true rest
  | cs => scanMagnitude false cs

/-! ### Texts -/

/-- The characters that may stand between tokens. -/
def isSpace (c : Char) : Bool :=
  c == ' ' || c == '\t' || c == '\n' || c == '\r'

/-- Scan one token of a text that starts with it. -/
def scanToken : List Char → Option (Token × List Char)
  | [] => none
  | '[' :: rest => some (.openArray, rest)
  | ']' :: rest => some (.closeArray, rest)
  | '\x7b' :: rest => some (.openObject, rest)
  | '\x7d' :: rest => some (.closeObject, rest)
  | ',' :: rest => some (.comma, rest)
  | ':' :: rest => some (.colon, rest)
  | 'n' :: 'u' :: 'l' :: 'l' :: rest => some (.null, rest)
  | 't' :: 'r' :: 'u' :: 'e' :: rest => some (.bool true, rest)
  | 'f' :: 'a' :: 'l' :: 's' :: 'e' :: rest => some (.bool false, rest)
  | '"' :: rest =>
    (scanString [] rest).map fun (units, rest) => (.string (joinUnits [] units), rest)
  | cs => (scanNumber cs).map fun (n, rest) => (.number n, rest)

/-! ### Progress -/

theorem scanString_length_lt {acc units : List StringUnit} {cs rest : List Char}
    (h : scanString acc cs = some (units, rest)) : rest.length < cs.length := by
  fun_induction scanString acc cs with
  | case1 => cases h
  | case2 => cases h; simp
  | case3 _ _ _ _ _ _ _ _ ih => have := ih h; simp only [List.length_cons]; omega
  | case4 => cases h
  | case5 _ _ _ _ _ _ ih => have := ih h; simp only [List.length_cons]; omega
  | case6 => cases h
  | case7 => cases h
  | case8 _ _ _ _ _ _ _ ih => have := ih h; simp only [List.length_cons]; omega

theorem spanDigits_length_le (cs : List Char) : (spanDigits cs).2.length ≤ cs.length :=
  (List.dropWhile_sublist Char.isDigit).length_le

theorem spanDigits_length_lt {cs digits rest : List Char} (h : spanDigits cs = (digits, rest))
    (hd : digits ≠ []) : rest.length < cs.length := by
  have happ : digits ++ rest = cs := by
    simp only [spanDigits, Prod.mk.injEq] at h
    rw [← h.1, ← h.2, List.takeWhile_append_dropWhile]
  have := congrArg List.length happ
  have := List.length_pos_iff.2 hd
  simp only [List.length_append] at *
  omega

theorem scanFraction_length_le {cs fraction rest : List Char}
    (h : scanFraction cs = some (fraction, rest)) : rest.length ≤ cs.length := by
  unfold scanFraction at h
  split at h
  · next r =>
    split at h
    · cases h
    · next _ hs =>
      cases h
      have := spanDigits_length_le r
      rw [hs] at this
      simp only [List.length_cons] at this ⊢
      omega
  · cases h
    exact Nat.le_refl _

theorem scanSign_length_le (cs : List Char) : (scanSign cs).2.length ≤ cs.length := by
  unfold scanSign
  split <;> simp

theorem scanExponent_length_le {cs rest : List Char} {exponent : Option (Bool × List Char)}
    (h : scanExponent cs = some (exponent, rest)) : rest.length ≤ cs.length := by
  unfold scanExponent at h
  split at h
  · cases h
    exact Nat.le_refl _
  · next c r =>
    split at h
    · have hs := scanSign_length_le r
      revert h
      generalize scanSign r = p at hs ⊢
      obtain ⟨negative, r'⟩ := p
      intro h
      simp only at h hs
      split at h
      · cases h
      · next _ hd =>
        cases h
        have := spanDigits_length_le r'
        rw [hd] at this
        simp only [List.length_cons] at this ⊢
        omega
    · cases h
      exact Nat.le_refl _

theorem scanMagnitude_length_lt {negative : Bool} {cs rest : List Char} {n : Number}
    (h : scanMagnitude negative cs = some (n, rest)) : rest.length < cs.length := by
  unfold scanMagnitude at h
  revert h
  generalize hp : spanDigits cs = p
  obtain ⟨integer, r⟩ := p
  intro h
  simp only at h
  split at h
  · next hi =>
    have hne : integer ≠ [] := by
      rintro rfl
      simp [isIntegerPart] at hi
    have h0 := spanDigits_length_lt hp hne
    obtain ⟨⟨fraction, r₁⟩, hf, h⟩ := Option.bind_eq_some_iff.1 h
    obtain ⟨⟨exponent, r₂⟩, he, h⟩ := Option.bind_eq_some_iff.1 h
    cases h
    have h1 := scanFraction_length_le hf
    have h2 := scanExponent_length_le he
    simp only at h1 h2 ⊢
    omega
  · cases h

theorem scanNumber_length_lt {cs rest : List Char} {n : Number}
    (h : scanNumber cs = some (n, rest)) : rest.length < cs.length := by
  unfold scanNumber at h
  split at h
  · have := scanMagnitude_length_lt h
    simp only [List.length_cons]
    omega
  · exact scanMagnitude_length_lt h

/-- Scanning a token uses up a part of the text. -/
theorem scanToken_length_lt {cs rest : List Char} {t : Token}
    (h : scanToken cs = some (t, rest)) : rest.length < cs.length := by
  unfold scanToken at h
  split at h
  case h_11 =>
    obtain ⟨⟨units, r⟩, hs, heq⟩ := Option.map_eq_some_iff.1 h
    cases heq
    have := scanString_length_lt hs
    simp only [List.length_cons]
    omega
  case h_12 =>
    obtain ⟨⟨n, r⟩, hs, heq⟩ := Option.map_eq_some_iff.1 h
    cases heq
    exact scanNumber_length_lt hs
  all_goals grind

/-- The tokens of a text, after those in `acc`, which are in reverse. -/
def scanFrom (acc : List Token) (cs : List Char) : Option (List Token) :=
  match cs with
  | [] => some acc.reverse
  | c :: rest =>
    if isSpace c then scanFrom acc rest
    else
      match h : scanToken (c :: rest) with
      | none => none
      | some (t, rest') =>
        have : rest'.length < (c :: rest).length := scanToken_length_lt h
        scanFrom (t :: acc) rest'
termination_by cs.length
decreasing_by
  · exact Nat.lt_succ_self _
  · exact this

/-- **Cut a text into tokens.** -/
def scan (cs : List Char) : Option (List Token) :=
  scanFrom [] cs

/-! ### Spelling -/

/-- A hexadecimal digit in lower case. -/
def hexDigit (n : Nat) : Char :=
  Nat.digitChar n

/-- How a character is written in a literal. -/
def escapeChar (c : Char) : List Char :=
  match c with
  | '"' => ['\\', '"']
  | '\\' => ['\\', '\\']
  | '\x08' => ['\\', 'b']
  | '\x0c' => ['\\', 'f']
  | '\n' => ['\\', 'n']
  | '\r' => ['\\', 'r']
  | '\t' => ['\\', 't']
  | c =>
    if isControl c then
      ['\\', 'u', '0', '0', hexDigit (c.toNat / 16), hexDigit (c.toNat % 16)]
    else [c]

/-- How a literal is written, quotes included. -/
def quote (s : String) : String :=
  String.ofList ('"' :: s.toList.flatMap escapeChar ++ ['"'])

/-- How a number is written. -/
def Number.spelling (x : Number) : List Char :=
  (if x.negative then ['-'] else []) ++ x.integer ++
    (if x.fraction.isEmpty then [] else '.' :: x.fraction) ++
    match x.exponent with
    | none => []
    | some (true, digits) => 'e' :: '-' :: digits
    | some (false, digits) => 'e' :: digits

/-- **How a token is written.** A literal without a text is written as an unpaired escape. -/
def Token.spelling : Token → String
  | .openArray => "["
  | .closeArray => "]"
  | .openObject => "\x7b"
  | .closeObject => "\x7d"
  | .comma => ","
  | .colon => ":"
  | .null => "null"
  | .bool true => "true"
  | .bool false => "false"
  | .number n => String.ofList n.spelling
  | .string (some s) => quote s
  | .string none => "\"\\ud800\""

end DelphiUnits.Json

import DelphiUnits.Toml.Number
import DelphiUnits.Toml.Space

/-!
# TOML texts and keys

The four kinds of quoted texts, and the keys, whose parts are bare names or texts on one
line. In a text over several lines newlines stay as they are written, except that one right
behind the opening quotes is dropped.
-/

namespace DelphiUnits.Toml

/-! ### Escapes -/

/-- The character with a number, which must not be a surrogate. -/
def scalar? (n : Nat) : Option Char :=
  if n.isValidChar then some (Char.ofNat n) else none

/-- The character that is escaped by a number of hexadecimal digits. -/
def hexEscape? (count : Nat) (cs : List Char) : Option (Char × List Char) :=
  if (cs.take count).length = count then do
    let c ← scalar? (← digits? 16 (cs.take count))
    some (c, cs.drop count)
  else none

/-- The character that is escaped behind a backslash. -/
def escape? : List Char → Option (Char × List Char)
  | 'b' :: rest => some ('\x08', rest)
  | 't' :: rest => some ('\t', rest)
  | 'n' :: rest => some ('\n', rest)
  | 'f' :: rest => some ('\x0c', rest)
  | 'r' :: rest => some ('\r', rest)
  | 'e' :: rest => some ('\x1b', rest)
  | '"' :: rest => some ('"', rest)
  | '\\' :: rest => some ('\\', rest)
  | 'x' :: rest => hexEscape? 2 rest
  | 'u' :: rest => hexEscape? 4 rest
  | 'U' :: rest => hexEscape? 8 rest
  | _ => none

/-- Hexadecimal digits leave no more than there was. -/
theorem hexEscape?_length_le {count : Nat} {cs rest : List Char} {c : Char}
    (h : hexEscape? count cs = some (c, rest)) : rest.length ≤ cs.length := by
  unfold hexEscape? at h
  split at h
  · simp only [Option.bind_eq_bind, Option.bind_eq_some_iff, Option.some.injEq,
      Prod.mk.injEq] at h
    obtain ⟨_, _, _, _, _, rfl⟩ := h
    simp
  · simp at h

/-- An escape is not empty. -/
theorem escape?_length_lt {cs rest : List Char} {c : Char}
    (h : escape? cs = some (c, rest)) : rest.length < cs.length := by
  unfold escape? at h
  split at h
  case h_9 | h_10 | h_11 => exact Nat.lt_succ_of_le (hexEscape?_length_le h)
  case h_12 => simp at h
  all_goals
    simp only [Option.some.injEq, Prod.mk.injEq] at h
    simp [← h.2]

/-! ### Texts -/

/-- A text between double quotes, from behind the first. The characters so far are in `acc`,
in reverse. -/
def basicFrom (acc cs : List Char) : Option (String × List Char) :=
  match cs with
  | [] => none
  | '"' :: rest => some (String.ofList acc.reverse, rest)
  | '\\' :: escaped =>
    match _ : escape? escaped with
    | none => none
    | some (c, rest) => basicFrom (c :: acc) rest
  | c :: rest => if isControl c then none else basicFrom (c :: acc) rest
termination_by cs.length
decreasing_by
  · have := escape?_length_lt (by assumption)
    simp only [List.length_cons]
    omega
  · simp

/-- A text between single quotes, in which nothing is escaped, from behind the first. -/
def literalFrom (acc : List Char) : List Char → Option (String × List Char)
  | [] => none
  | '\'' :: rest => some (String.ofList acc.reverse, rest)
  | c :: rest => if isControl c then none else literalFrom (c :: acc) rest

/-- What follows the newline right behind the opening of a text over several lines. -/
def skipFirstNewline (cs : List Char) : List Char :=
  (newline? cs).getD cs

/-- The end of a text over several lines: up to two quotes may stand before the three that
close it. The answer is the number of quotes that belong to the text. -/
def closing? (quote : Char) (cs : List Char) : Option (Nat × List Char) :=
  let run := (cs.takeWhile (· == quote)).length
  if 3 ≤ run then
    let kept := min (run - 3) 2
    some (kept, cs.drop (kept + 3))
  else none

/-- What follows a backslash at the end of a line: the next word. -/
def continued? (cs : List Char) : Option (List Char) :=
  (newline? (skipBlanks cs)).map skipBreaks

/-- A continued line is shorter. -/
theorem continued?_length_lt {cs rest : List Char} (h : continued? cs = some rest) :
    rest.length < cs.length := by
  simp only [continued?, Option.map_eq_some_iff] at h
  obtain ⟨next, hn, rfl⟩ := h
  have := newline?_length_lt hn
  have := skipBlanks_length_le cs
  have := skipBreaks_length_le next
  omega

/-- A text over several lines between double quotes, from behind the first three. A
backslash at the end of a line joins the line to the next word. -/
def multiBasicFrom (acc cs : List Char) : Option (String × List Char) :=
  match closing? '"' cs with
  | some (kept, rest) => some (String.ofList (List.replicate kept '"' ++ acc).reverse, rest)
  | none =>
    match cs with
    | [] => none
    | '\n' :: rest => multiBasicFrom ('\n' :: acc) rest
    | '\r' :: '\n' :: rest => multiBasicFrom ('\n' :: '\r' :: acc) rest
    | '\\' :: escaped =>
      match _ : continued? escaped with
      | some rest => multiBasicFrom acc rest
      | none =>
        match _ : escape? escaped with
        | none => none
        | some (c, rest) => multiBasicFrom (c :: acc) rest
    | c :: rest => if isControl c then none else multiBasicFrom (c :: acc) rest
termination_by cs.length
decreasing_by
  · simp
  · simp only [List.length_cons]
    omega
  · have := continued?_length_lt (by assumption)
    simp only [List.length_cons]
    omega
  · have := escape?_length_lt (by assumption)
    simp only [List.length_cons]
    omega
  · simp

/-- A text over several lines between single quotes, from behind the first three. -/
def multiLiteralFrom (acc cs : List Char) : Option (String × List Char) :=
  match closing? '\'' cs with
  | some (kept, rest) => some (String.ofList (List.replicate kept '\'' ++ acc).reverse, rest)
  | none =>
    match cs with
    | [] => none
    | '\n' :: rest => multiLiteralFrom ('\n' :: acc) rest
    | '\r' :: '\n' :: rest => multiLiteralFrom ('\n' :: '\r' :: acc) rest
    | c :: rest => if isControl c then none else multiLiteralFrom (c :: acc) rest

/-- **A quoted text** of any kind. -/
def text? : List Char → Option (String × List Char)
  | '"' :: '"' :: '"' :: rest => multiBasicFrom [] (skipFirstNewline rest)
  | '"' :: rest => basicFrom [] rest
  | '\'' :: '\'' :: '\'' :: rest => multiLiteralFrom [] (skipFirstNewline rest)
  | '\'' :: rest => literalFrom [] rest
  | _ => none

/-! ### Keys -/

/-- A character of a key without quotes. -/
def isKeyChar (c : Char) : Bool := c.isAlphanum || c == '_' || c == '-'

/-- A key of one part. -/
def simpleKey? : List Char → Option (String × List Char)
  | '"' :: rest => basicFrom [] rest
  | '\'' :: rest => literalFrom [] rest
  | cs =>
    let name := cs.takeWhile isKeyChar
    if name.isEmpty then none else some (String.ofList name, cs.dropWhile isKeyChar)

/-- The parts of a dotted key, at most as many as the first argument says. -/
def keyParts? : Nat → List Char → Option (List String × List Char)
  | 0, _ => none
  | n + 1, cs => do
    let (part, rest) ← simpleKey? (skipBlanks cs)
    match skipBlanks rest with
    | '.' :: rest => do
      let (parts, rest) ← keyParts? n rest
      some (part :: parts, rest)
    | rest => some ([part], rest)

/-- The most parts of a dotted key. -/
def maxKeyParts : Nat := 80

/-- **A dotted key** with the blanks around it. -/
def key? (cs : List Char) : Option (List String × List Char) := keyParts? maxKeyParts cs

end DelphiUnits.Toml

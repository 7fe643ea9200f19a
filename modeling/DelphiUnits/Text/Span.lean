import DelphiUnits.Text.Chars

/-!
# Byte offsets and spans

Positions in a source text are byte offsets into its UTF-8 encoding. This module measures
texts in bytes, cuts them into lines, converts a line and a column into an offset, and finds
where a pattern first occurs.
-/

namespace DelphiUnits.Text

/-- A stretch of a source text, in bytes. -/
structure Span where
  /-- The byte at which the stretch starts. -/
  offset : Nat
  /-- The number of bytes it covers. -/
  length : Nat
  deriving DecidableEq, Repr

/-- The number of bytes of the UTF-8 encoding. -/
def byteLength : List Char → Nat
  | [] => 0
  | c :: cs => c.utf8Size + byteLength cs

/-- Cut a text after every newline. Each line keeps its newline, and no empty line follows
the last one. -/
def lines : List Char → List (List Char)
  | [] => []
  | c :: cs =>
    if c = '\n' then [c] :: lines cs
    else
      match lines cs with
      | [] => [[c]]
      | l :: ls => (c :: l) :: ls

/-- The byte offset of a **line and column**, both counted from one and the column in bytes.
A position past the end is the end; there is no line zero, and column zero is column one. -/
def offsetAt? (text : String) (line column : Nat) : Option Nat :=
  if line = 0 then none
  else
    let start := byteLength ((lines text.toList).take (line - 1)).flatten
    some (min (start + (column - 1)) (byteLength text.toList))

/-- The byte offset of the **first occurrence** of a pattern. -/
def findOffset? (pattern : List Char) : List Char → Option Nat
  | [] => if pattern.isEmpty then some 0 else none
  | c :: cs =>
    if pattern.isPrefixOf (c :: cs) then some 0
    else (findOffset? pattern cs).map (c.utf8Size + ·)

/-- Where a value first stands between two quotes of the given kind, without the quotes. -/
def quotedSpan? (quote : Char) (value source : List Char) : Option Span :=
  (findOffset? (quote :: value ++ [quote]) source).map fun start =>
    ⟨start + quote.utf8Size, byteLength value⟩

/-- The **span of a quoted value**: its first occurrence between double quotes, else the
first between single quotes. -/
def stringSpan? (source value : String) : Option Span :=
  (quotedSpan? '"' value.toList source.toList).or
    (quotedSpan? '\'' value.toList source.toList)

/-- Whether a line assigns to the key: blanks, the key, blanks, an equals sign. The answer
is the number of bytes before the key. -/
def assignment? (key line : List Char) : Option Nat :=
  let trimmed := trimStart line
  if key.isPrefixOf trimmed ∧ (trimStart (trimmed.drop key.length)).head? = some '=' then
    some (byteLength line - byteLength trimmed)
  else none

/-- The span of the key in the first of the given lines that assigns to it, when the lines
start at byte `offset`. -/
def keySpanFrom? (key : List Char) (offset : Nat) : List (List Char) → Option Span
  | [] => none
  | line :: rest =>
    match assignment? key line with
    | some lead => some ⟨offset + lead, byteLength key⟩
    | none => keySpanFrom? key (offset + byteLength line) rest

/-- The **span of a key**: where it stands in the first line that assigns to it. -/
def keySpan? (source key : String) : Option Span :=
  keySpanFrom? key.toList 0 (lines source.toList)

end DelphiUnits.Text

/-!
# TOML space

What may stand between the parts of a TOML document: blanks within a line, and between the
parts of arrays and tables in braces also newlines and comments.

A newline is a line feed, with or without a carriage return before it. A carriage return
that has no line feed behind it is never space, nor part of a text or a comment.
-/

namespace DelphiUnits.Toml

/-- A blank within a line. -/
def isBlank (c : Char) : Bool := c == ' ' || c == '\t'

/-- A control character that no text and no comment may hold. -/
def isControl (c : Char) : Bool :=
  (c.toNat < 0x20 && c != '\t') || c.toNat == 0x7F

/-- Skip blanks. -/
def skipBlanks (cs : List Char) : List Char := cs.dropWhile isBlank

/-- Skip a comment up to the end of its line. -/
def skipComment : List Char → List Char
  | '#' :: rest => rest.dropWhile (!isControl ·)
  | cs => cs

/-- What follows a newline. -/
def newline? : List Char → Option (List Char)
  | '\n' :: rest => some rest
  | '\r' :: '\n' :: rest => some rest
  | _ => none

/-- Skip to the end of a line on which nothing follows but a comment. -/
def endLine? (cs : List Char) : Option (List Char) :=
  match skipComment (skipBlanks cs) with
  | [] => some []
  | rest => newline? rest

/-- Skip blanks and newlines. -/
def skipBreaks : List Char → List Char
  | [] => []
  | '\r' :: '\n' :: rest => skipBreaks rest
  | c :: rest => if isBlank c || c == '\n' then skipBreaks rest else c :: rest

/-- Skip blanks, newlines and comments, from inside a comment or from outside. -/
def skipSpaceFrom : Bool → List Char → List Char
  | _, [] => []
  | _, '\n' :: rest => skipSpaceFrom false rest
  | _, '\r' :: '\n' :: rest => skipSpaceFrom false rest
  | true, c :: rest => if isControl c then c :: rest else skipSpaceFrom true rest
  | false, c :: rest =>
    if c == '#' then skipSpaceFrom true rest
    else if isBlank c then skipSpaceFrom false rest
    else c :: rest

/-- **Skip all blanks, newlines and comments.** -/
def skipSpace (cs : List Char) : List Char := skipSpaceFrom false cs

/-- Skipping blanks and newlines adds nothing. -/
theorem skipBreaks_length_le (cs : List Char) : (skipBreaks cs).length ≤ cs.length := by
  fun_induction skipBreaks cs with
  | case1 => simp
  | case2 rest ih => simp only [List.length_cons]; omega
  | case3 c rest _ _ ih => simp only [List.length_cons]; omega
  | case4 => simp

/-- Skipping blanks adds nothing. -/
theorem skipBlanks_length_le (cs : List Char) : (skipBlanks cs).length ≤ cs.length :=
  (List.dropWhile_sublist isBlank).length_le

/-- A newline is not empty. -/
theorem newline?_length_lt {cs rest : List Char} (h : newline? cs = some rest) :
    rest.length < cs.length := by
  unfold newline? at h
  split at h
  · obtain rfl := Option.some.inj h
    simp
  · obtain rfl := Option.some.inj h
    simp only [List.length_cons]
    omega
  · simp at h

end DelphiUnits.Toml

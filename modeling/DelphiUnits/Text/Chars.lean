/-!
# Character classes and letter case

The character classes the library reads by, and the text operations that work a character at
a time. Word characters make up identifiers, blanks are what trimming removes, and letter
case is ASCII letter case throughout: a letter outside ASCII has one form only.

Texts are `String`s; an operation that looks inside one works on its list of characters.
-/

namespace DelphiUnits.Text

/-- A **word character**: an ASCII letter, an ASCII digit or the underscore. -/
def isWordChar (c : Char) : Bool :=
  c.isAlphanum || c == '_'

/-- A **blank**: a character with the Unicode property `White_Space`. -/
def isBlank (c : Char) : Bool :=
  let n := c.toNat
  (0x09 ≤ n && n ≤ 0x0D) || n == 0x20 || n == 0x85 || n == 0xA0 || n == 0x1680 ||
    (0x2000 ≤ n && n ≤ 0x200A) || n == 0x2028 || n == 0x2029 || n == 0x202F ||
    n == 0x205F || n == 0x3000

/-- The value of a hexadecimal digit of either case. -/
def hexValue? (c : Char) : Option Nat :=
  if c.isDigit then some (c.toNat - '0'.toNat)
  else if 'a' ≤ c ∧ c ≤ 'f' then some (c.toNat - 'a'.toNat + 10)
  else if 'A' ≤ c ∧ c ≤ 'F' then some (c.toNat - 'A'.toNat + 10)
  else none

/-- The characters from the first one that is not blank. -/
def trimStart (cs : List Char) : List Char :=
  cs.dropWhile isBlank

/-- The characters up to the last one that is not blank. -/
def trimEnd (cs : List Char) : List Char :=
  (cs.reverse.dropWhile isBlank).reverse

/-- A text without the blanks at its two ends. -/
def trim (s : String) : String :=
  String.ofList (trimEnd (trimStart s.toList))

/-- A text with its ASCII letters in lower case, the form in which letter case is gone. -/
def foldCase (s : String) : List Char :=
  s.toList.map Char.toLower

/-- Whether two texts are **equal up to ASCII letter case**. -/
def sameIgnoringCase (a b : String) : Bool :=
  foldCase a == foldCase b

/-- A text with every backslash written as a slash. -/
def forwardSlashes (s : String) : String :=
  String.ofList (s.toList.map fun c => if c = '\\' then '/' else c)

end DelphiUnits.Text

import DelphiUnits.Toml.DateTime
import DelphiUnits.Toml.Space
import DelphiUnits.Toml.Value

/-!
# TOML words

A word is a value that is written without quotes: a number, a truth value, a date or a time.
It ends where something else begins, which no blank does that another stretch of the word
follows. So a date and a time make one word, and two values with only a blank between them
make a word that is none.
-/

namespace DelphiUnits.Toml

/-- Whether a character ends a word at once. -/
def isMark (c : Char) : Bool :=
  c == '=' || c == ',' || c == '[' || c == ']' || c == '\x7b' || c == '\x7d' || c == '#' ||
    c == '\r' || c == '\n'

/-- Whether a character opens a quoted text. -/
def isQuote (c : Char) : Bool := c == '"' || c == '\''

/-- Cut off the word at the start of a text. The blanks since its last character are in
`blanks`, in reverse; a quote ends the word behind them and belongs to it anywhere else. -/
def splitWord (blanks : List Char) : List Char → List Char × List Char
  | [] => ([], blanks.reverse)
  | c :: rest =>
    if isBlank c then splitWord (c :: blanks) rest
    else if isMark c || (!blanks.isEmpty && isQuote c) then ([], blanks.reverse ++ c :: rest)
    else
      let (word, rest) := splitWord [] rest
      (blanks.reverse ++ c :: word, rest)

/-- Whether this is a value that is not a whole number that can be read. -/
def isOtherWord (word : List Char) : Bool :=
  word == "true".toList || word == "false".toList || isFloat word || isDateTime word ||
    isBaseMark word || isGroupedInteger word

/-- **The value that a word spells.** -/
def wordValue? (word : List Char) : Option Value :=
  match integer? word with
  | some n => some (.integer n)
  | none => if isOtherWord word then some (.word (String.ofList word)) else none

end DelphiUnits.Toml

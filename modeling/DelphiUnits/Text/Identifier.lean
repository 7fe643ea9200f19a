import DelphiUnits.Text.Chars

/-!
# Identifiers

A Pascal name is written with a capital at the start of every word, a word being a longest
run of word characters: `system.classes` becomes `System.Classes`. All other characters,
the separators between words among them, stay as they are.
-/

namespace DelphiUnits.Text

/-- Capitalize the words of a text whose first character follows a word character exactly
when `inWord` holds. Only a letter at the start of a word changes. -/
def capitalizeWords (inWord : Bool) : List Char → List Char
  | [] => []
  | c :: cs => (if inWord then c else c.toUpper) :: capitalizeWords (isWordChar c) cs

/-- **Normal form of an identifier**: every word starts with a capital. -/
def normalizeIdentifier (s : String) : String :=
  String.ofList (capitalizeWords false s.toList)

end DelphiUnits.Text

import DelphiUnits.Text.Chars

/-!
# Reserved words

The names a generated unit must not have: the built-in words and those a project adds.
Pascal does not tell letter case apart, so neither does membership, and a word that is
already in the set in another spelling is not added again.
-/

namespace DelphiUnits

/-- A set of reserved words, in the order in which they came. -/
structure ReservedWords where
  /-- The words as they were first spelled. -/
  words : List String
  deriving DecidableEq, Repr

namespace ReservedWords

/-- The words that are reserved in every project. -/
def builtInWords : List String :=
  ["unit", "for", "each", "except", "begin", "end", "types", "class"]

/-- The set of the built-in words. -/
def builtIn : ReservedWords :=
  ⟨builtInWords⟩

/-- Whether a name is reserved, **whatever its letter case**. -/
def contains (r : ReservedWords) (name : String) : Bool :=
  r.words.any fun word => Text.sameIgnoringCase word name

/-- Add a word at the end, unless the set has it already. -/
def insert (r : ReservedWords) (word : String) : ReservedWords :=
  if r.contains word then r else ⟨r.words ++ [word]⟩

/-- Add words one after the other. -/
def insertMany (r : ReservedWords) (words : List String) : ReservedWords :=
  words.foldl insert r

end ReservedWords

end DelphiUnits

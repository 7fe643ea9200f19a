import DelphiUnits.Json.Token

/-!
# Writing JSON

A tree is written in two ways: compactly, as nothing but its tokens, and over several lines,
where every item of an array or object has a line of its own.
-/

namespace DelphiUnits.Json

/-! ### Compact -/

mutual

/-- **The tokens of a tree.** -/
def tokens : Json → List Token
  | .null => [.null]
  | .bool b => [.bool b]
  | .number n => [.number n]
  | .string s => [.string s]
  | .array items => .openArray :: itemTokens items
  | .object members => .openObject :: memberTokens members

/-- The tokens of the items of an array, and its end. -/
def itemTokens : List Json → List Token
  | [] => [.closeArray]
  | item :: rest => item.tokens ++ moreItemTokens rest

/-- The tokens of the items after the first, and the end of the array. -/
def moreItemTokens : List Json → List Token
  | [] => [.closeArray]
  | item :: rest => .comma :: item.tokens ++ moreItemTokens rest

/-- The tokens of the members of an object, and its end. -/
def memberTokens : List Member → List Token
  | [] => [.closeObject]
  | (key, value) :: rest => .string key :: .colon :: value.tokens ++ moreMemberTokens rest

/-- The tokens of the members after the first, and the end of the object. -/
def moreMemberTokens : List Member → List Token
  | [] => [.closeObject]
  | (key, value) :: rest =>
    .comma :: .string key :: .colon :: value.tokens ++ moreMemberTokens rest

end

/-- **Write a tree compactly.** -/
def render (j : Json) : String :=
  String.join (j.tokens.map Token.spelling)

/-! ### Over several lines -/

/-- A new line that is indented by two spaces a level. -/
def newLine (level : Nat) : String :=
  "\n" ++ String.join (List.replicate level "  ")

mutual

/-- Write a tree over several lines, at a level of indentation. -/
def prettyAt (level : Nat) : Json → String
  | .array [] => "[]"
  | .array (item :: rest) =>
    "[" ++ newLine (level + 1) ++ prettyAt (level + 1) item ++
      prettyItems (level + 1) rest ++ newLine level ++ "]"
  | .object [] => "\x7b\x7d"
  | .object ((key, value) :: rest) =>
    "\x7b" ++ newLine (level + 1) ++ (Token.string key).spelling ++ ": " ++
      prettyAt (level + 1) value ++ prettyMembers (level + 1) rest ++ newLine level ++ "\x7d"
  | .null => "null"
  | .bool b => (Token.bool b).spelling
  | .number n => (Token.number n).spelling
  | .string s => (Token.string s).spelling

/-- Write the items after the first. -/
def prettyItems (level : Nat) : List Json → String
  | [] => ""
  | item :: rest => "," ++ newLine level ++ prettyAt level item ++ prettyItems level rest

/-- Write the members after the first. -/
def prettyMembers (level : Nat) : List Member → String
  | [] => ""
  | (key, value) :: rest =>
    "," ++ newLine level ++ (Token.string key).spelling ++ ": " ++ prettyAt level value ++
      prettyMembers level rest

end

/-- **Write a tree over several lines.** -/
def pretty (j : Json) : String :=
  prettyAt 0 j

/-! ### Order of keys -/

mutual

/-- A tree with the members of every object in the order of their keys. -/
def sortKeys : Json → Json
  | .array items => .array (sortItems items)
  | .object members =>
    .object ((sortMembers members).mergeSort fun a b => a.1.getD "" ≤ b.1.getD "")
  | .null => .null
  | .bool b => .bool b
  | .number n => .number n
  | .string s => .string s

/-- The items with their keys in order. -/
def sortItems : List Json → List Json
  | [] => []
  | item :: rest => item.sortKeys :: sortItems rest

/-- The members with the keys inside their values in order. -/
def sortMembers : List Member → List Member
  | [] => []
  | (key, value) :: rest => (key, value.sortKeys) :: sortMembers rest

end

end DelphiUnits.Json

/-!
# Maps in order of insertion

A map is a list of keys with values. A key keeps the place at which it came first; whether
it keeps its first value or takes the last one is the difference between `insertNew` and
`insert`.
-/

namespace DelphiUnits

/-- A map in the order in which its keys came. -/
abbrev OrderedMap (κ ν : Type) := List (κ × ν)

namespace OrderedMap

variable {κ ν : Type} [DecidableEq κ]

/-- The keys of a map in their order. -/
def keys (m : OrderedMap κ ν) : List κ :=
  m.map Prod.fst

/-- Put a value under a key. **The last value counts**, and the key stays in its place. -/
def insert (m : OrderedMap κ ν) (key : κ) (value : ν) : OrderedMap κ ν :=
  match m with
  | [] => [(key, value)]
  | (k, v) :: rest => if k = key then (key, value) :: rest else (k, v) :: insert rest key value

/-- Put a value under a key that has none. **The first value counts.** -/
def insertNew (m : OrderedMap κ ν) (key : κ) (value : ν) : OrderedMap κ ν :=
  if key ∈ m.keys then m else m ++ [(key, value)]

/-- Insert one pair after the other. -/
def insertMany (m : OrderedMap κ ν) (pairs : List (κ × ν)) : OrderedMap κ ν :=
  pairs.foldl (fun m (key, value) => m.insert key value) m

end OrderedMap

end DelphiUnits

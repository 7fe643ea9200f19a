/-!
# JSON trees

A JSON text stands for a tree. The tree keeps what later readers have to see: members in
their order with repeated keys, numbers as they are spelled, and string literals whose
escapes do not spell a text. Nothing is refused here beyond what the grammar refuses; how
much of a tree may be used is the question of `Json.fits`.

## Main definitions

* `Json`: the trees;
* `Json.Number.outOfRange`: the numbers no double can hold;
* `Json.fits`: the trees that can be read in full within a bound on their nesting.
-/

namespace DelphiUnits

namespace Json

/-- The text of a string literal. A literal with an unpaired surrogate escape has none. -/
abbrev Literal := Option String

/-- A number as it is spelled. -/
structure Number where
  /-- Whether a minus sign comes first. -/
  negative : Bool
  /-- The digits before the point. -/
  integer : List Char
  /-- The digits after the point, none when there is no point. -/
  fraction : List Char
  /-- The sign and the digits of the exponent; the sign is `true` for a minus. -/
  exponent : Option (Bool × List Char)
  deriving DecidableEq

end Json

/-- A JSON tree. -/
inductive Json where
  | null
  | bool (value : Bool)
  | number (value : Json.Number)
  | string (text : Json.Literal)
  | array (items : List Json)
  | object (members : List (Json.Literal × Json))

namespace Json

/-- A member of an object. -/
abbrev Member := Literal × Json

/-! ### Numbers -/

namespace Number

/-- The number that spells a natural number. -/
def ofNat (n : Nat) : Number :=
  ⟨false, Nat.toDigits 10 n, [], none⟩

/-- The value of a decimal digit. -/
def digitValue (c : Char) : Nat :=
  c.toNat - '0'.toNat

/-- The value of a run of decimal digits. -/
def digitsValue (cs : List Char) : Nat :=
  cs.foldl (fun n c => 10 * n + digitValue c) 0

/-- The least number that a 64-bit word cannot hold. -/
def wordBound : Nat := Nat.pow 2 64

/-- The leading digits of a number's integer part, as many as fit a word, and the number of
digits that are left out. -/
def leadingInteger : Nat → List Char → Nat × Nat
  | n, [] => (n, 0)
  | n, c :: cs =>
    if 10 * n + digitValue c < wordBound then leadingInteger (10 * n + digitValue c) cs
    else (n, (c :: cs).length)

/-- Go on with the digits after the point as long as the word holds them; the second part
counts those that were taken. -/
def leadingFraction : Nat → List Char → Nat × Nat
  | n, [] => (n, 0)
  | n, c :: cs =>
    if 10 * n + digitValue c < wordBound then
      let (m, taken) := leadingFraction (10 * n + digitValue c) cs
      (m, taken + 1)
    else (n, 0)

/-- The power of ten that the exponent stands for. -/
def power (x : Number) : Int :=
  match x.exponent with
  | none => 0
  | some (true, digits) => -(digitsValue digits : Int)
  | some (false, digits) => digitsValue digits

/-- A number as a **significand and a power of ten**: the leading digits that a word holds,
the others counted only. -/
def parts (x : Number) : Nat × Int :=
  let (whole, left) := leadingInteger 0 x.integer
  let (significand, taken) := leadingFraction whole x.fraction
  (significand, (left : Int) - taken + x.power)

/-- Round a natural number to 53 significant bits, a tie to the even neighbour. -/
def roundToDouble (n : Nat) : Nat :=
  let shift := n.log2 + 1 - 53
  let kept := n >>> shift
  let dropped := n - kept <<< shift
  let half := (1 <<< shift) / 2
  if shift ≠ 0 ∧ (half < dropped ∨ dropped = half ∧ kept % 2 = 1) then (kept + 1) <<< shift
  else kept <<< shift

/-- The least magnitude that rounds to no finite double. -/
def doubleBound : Nat := Nat.pow 2 1024 - Nat.pow 2 970

/-- The greatest power of ten that a double holds. -/
def maxPower : Nat := 308

/-- Whether a number is **too large for a double**: its significand and its power of ten,
each rounded to a double, have a product that is infinite. -/
def outOfRange (x : Number) : Bool :=
  match x.parts with
  | (0, _) => false
  | (significand, .ofNat power) =>
    maxPower < power ||
      doubleBound ≤ roundToDouble significand * roundToDouble (Nat.pow 10 power)
  | (_, .negSucc _) => false

/-- The value of a number that is spelled as a natural number and fits a word. -/
def toWord? (x : Number) : Option Nat :=
  if x.negative ∨ x.fraction ≠ [] ∨ x.exponent ≠ none then none
  else
    let n := digitsValue x.integer
    if n < wordBound then some n else none

end Number

/-! ### Trees -/

/-- The tree of a text. -/
def text (s : String) : Json := .string (some s)

/-- The tree of a text that may be absent. -/
def optionalText : Option String → Json
  | some s => text s
  | none => .null

/-- The tree of a natural number. -/
def natural (n : Nat) : Json := .number (.ofNat n)

/-- The object with the given fields, whose keys are texts. -/
def record (fields : List (String × Json)) : Json :=
  .object (fields.map fun (key, value) => (some key, value))

/-- The text a tree consists of. -/
def text? : Json → Option String
  | .string s => s
  | _ => none

/-- The truth value a tree consists of. -/
def bool? : Json → Option Bool
  | .bool b => some b
  | _ => none

/-- The value under the last member with a key. -/
def lastValue? (key : String) : List Member → Option Json
  | [] => none
  | (k, v) :: rest =>
    match lastValue? key rest with
    | some w => some w
    | none => if k = some key then some v else none

/-- The value an object has under a key. Of repeated keys **the last one counts**. -/
def get? (key : String) : Json → Option Json
  | .object members => lastValue? key members
  | _ => none

mutual

/-- Whether a tree can be **read in full**: it opens at most `depth` arrays and objects
inside one another, all its literals have a text and its numbers are within range. -/
def fits (depth : Nat) : Json → Bool
  | .null => true
  | .bool _ => true
  | .number n => !n.outOfRange
  | .string s => s.isSome
  | .array items =>
    match depth with
    | 0 => false
    | depth + 1 => fitsAll depth items
  | .object members =>
    match depth with
    | 0 => false
    | depth + 1 => fitsMembers depth members

/-- Whether all items can be read. -/
def fitsAll (depth : Nat) : List Json → Bool
  | [] => true
  | item :: rest => item.fits depth && fitsAll depth rest

/-- Whether all members can be read, keys and values. -/
def fitsMembers (depth : Nat) : List Member → Bool
  | [] => true
  | (key, value) :: rest => key.isSome && value.fits depth && fitsMembers depth rest

end

/-- How many arrays and objects may be open at once. -/
def maxDepth : Nat := 127

/-! ### Sizes -/

theorem sizeOf_lastValue?_lt {key : String} {members : List Member} {v : Json}
    (h : lastValue? key members = some v) : sizeOf v < sizeOf members := by
  induction members with
  | nil => simp [lastValue?] at h
  | cons m rest ih =>
      obtain ⟨k, w⟩ := m
      simp only [lastValue?] at h
      split at h
      · next u hu =>
        cases h
        have := ih hu
        simp only [List.cons.sizeOf_spec]
        omega
      · split at h
        · cases h
          simp only [List.cons.sizeOf_spec, Prod.mk.sizeOf_spec]
          omega
        · cases h

/-- What an object has under a key is smaller than the object. -/
theorem sizeOf_get?_lt {key : String} {j v : Json} (h : j.get? key = some v) :
    sizeOf v < sizeOf j := by
  cases j with
  | object members =>
      have := sizeOf_lastValue?_lt (h : lastValue? key members = some v)
      simp only [Json.object.sizeOf_spec]
      omega
  | _ => simp [get?] at h

end Json

end DelphiUnits

import DelphiUnits.Text.Chars

/-!
# TOML numbers

Whole numbers are written in base ten with a sign, or in another base with its mark. A
number in base ten does not start with a zero unless it is zero. Underscores may stand
between digits, one at a time.

Not every number is read: a manifest passes over values it has no use for, and no float is
ever of use. Such a number has to be sound where it is marked: a float in all its parts, a
whole number at its underscores (`isGroupedInteger`) or at the mark of its base
(`isBaseMark`).
-/

namespace DelphiUnits.Toml

/-- The value of digits in a base, all of which have to be digits of that base. -/
def digits? (base : Nat) (cs : List Char) : Option Nat :=
  cs.foldlM
    (fun n c => (Text.hexValue? c).bind fun d => if d < base then some (base * n + d) else none) 0

/-! ### Whole numbers -/

/-- Digits with single underscores between them removed. -/
def stripUnderscores? : List Char → Option (List Char)
  | [] => none
  | [c] => if c = '_' then none else some [c]
  | c :: '_' :: rest => if c = '_' then none else (stripUnderscores? rest).map (c :: ·)
  | c :: rest => if c = '_' then none else (stripUnderscores? rest).map (c :: ·)

/-- A natural number in a base. -/
def natural? (base : Nat) (cs : List Char) : Option Nat :=
  (stripUnderscores? cs).bind (digits? base)

/-- A natural number in base ten, which starts with a zero only if it is zero. -/
def decimal? : List Char → Option Nat
  | ['0'] => some 0
  | '0' :: _ => none
  | cs => natural? 10 cs

/-- **A whole number**, in base ten with a sign or in another base with its mark. -/
def integer? : List Char → Option Int
  | '0' :: 'x' :: rest => (natural? 16 rest).map Int.ofNat
  | '0' :: 'o' :: rest => (natural? 8 rest).map Int.ofNat
  | '0' :: 'b' :: rest => (natural? 2 rest).map Int.ofNat
  | '+' :: rest => (decimal? rest).map Int.ofNat
  | '-' :: rest => (decimal? rest).map fun n => -Int.ofNat n
  | cs => (decimal? cs).map Int.ofNat

/-! ### Whole numbers that are not read -/

/-- Whether this is the mark of a base with no digits behind it. -/
def isBaseMark : List Char → Bool
  | ['0', 'x'] => true
  | ['0', 'o'] => true
  | ['0', 'b'] => true
  | _ => false

/-- Whether a character is a digit of some base. -/
def isAnyDigit (c : Char) : Bool := (Text.hexValue? c).isSome

/-- Whether every underscore stands between two digits of some base. The first argument
tells whether a digit comes before. -/
def isGrouped : Bool → List Char → Bool
  | _, [] => true
  | _, ['_'] => false
  | digit, '_' :: c :: rest => digit && isAnyDigit c && isGrouped true rest
  | _, c :: rest => isGrouped (isAnyDigit c) rest

/-- A number without its sign. -/
def dropSign : List Char → List Char
  | '+' :: rest => rest
  | '-' :: rest => rest
  | cs => cs

/-- Whether a character makes a number something else than a whole one in groups. -/
def isGroupBreak (c : Char) : Bool := c == ' ' || c == '.' || c == 'e' || c == 'E'

/-- **Whether this is a whole number in groups.** An underscore follows its first digits,
the first of which is not a zero. What a group holds between its ends, or the last one behind
its first digit, is for those who read the number. -/
def isGroupedInteger (cs : List Char) : Bool :=
  let body := dropSign cs
  (body.dropWhile Char.isDigit).head? == some '_' && body.head? != some '0' &&
    body.all (!isGroupBreak ·) && isGrouped false body

/-! ### Floats -/

/-- Whether a character starts an exponent. -/
def isExponentMark (c : Char) : Bool := c == 'e' || c == 'E'

/-- Whether this is nothing, or an exponent with its mark. -/
def isExponent : List Char → Bool
  | [] => true
  | _ :: rest => (natural? 10 (dropSign rest)).isSome

/-- Whether this is nothing, or a fraction with its point. -/
def isFraction : List Char → Bool
  | [] => true
  | _ :: rest => (natural? 10 rest).isSome

/-- Whether this is a whole part in base ten with a fraction, an exponent or both. -/
def isDecimalFloat (cs : List Char) : Bool :=
  let mantissa := cs.takeWhile (!isExponentMark ·)
  let exponent := cs.dropWhile (!isExponentMark ·)
  let fraction := mantissa.dropWhile (· != '.')
  (decimal? (mantissa.takeWhile (· != '.'))).isSome && isFraction fraction &&
    isExponent exponent && !(fraction.isEmpty && exponent.isEmpty)

/-- **Whether this is a float.** -/
def isFloat (cs : List Char) : Bool :=
  dropSign cs == ['i', 'n', 'f'] || dropSign cs == ['n', 'a', 'n'] || isDecimalFloat (dropSign cs)

end DelphiUnits.Toml

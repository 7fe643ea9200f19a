import DelphiUnits.Toml.Number

/-!
# TOML dates and times

A date has a year, a month and a day; a time has hours and minutes, and may have seconds
and a fraction of them. A date with a time may have an offset. Nothing in a manifest is a
date, so these are only told from what is none.
-/

namespace DelphiUnits.Toml

/-- Whether a year has a leap day. -/
def isLeapYear (year : Nat) : Bool :=
  year % 4 == 0 && (year % 100 != 0 || year % 400 == 0)

/-- The number of days of a month. -/
def daysInMonth (year month : Nat) : Nat :=
  if month = 2 then (if isLeapYear year then 29 else 28)
  else if month = 4 ∨ month = 6 ∨ month = 9 ∨ month = 11 then 30
  else 31

/-- Whether there is a day with these numbers. -/
def isDay (year month day : Nat) : Bool :=
  1 ≤ month && month ≤ 12 && 1 ≤ day && day ≤ daysInMonth year month

/-- Whether digits spell a number up to a bound. -/
def isUpTo (bound : Nat) (cs : List Char) : Bool :=
  (digits? 10 cs).any (· ≤ bound)

/-- **Whether this is a date.** -/
def isDate : List Char → Bool
  | [y₁, y₂, y₃, y₄, '-', m₁, m₂, '-', d₁, d₂] =>
    match digits? 10 [y₁, y₂, y₃, y₄], digits? 10 [m₁, m₂], digits? 10 [d₁, d₂] with
    | some year, some month, some day => isDay year month day
    | _, _, _ => false
  | _ => false

/-- Whether this is nothing, or a fraction of a second with its point. -/
def isSecondFraction : List Char → Bool
  | [] => true
  | '.' :: rest => !rest.isEmpty && rest.all Char.isDigit
  | _ => false

/-- Whether this is nothing, or seconds with their colon. A minute may have a leap second. -/
def isSeconds : List Char → Bool
  | [] => true
  | ':' :: s₁ :: s₂ :: rest => isUpTo 60 [s₁, s₂] && isSecondFraction rest
  | _ => false

/-- **Whether this is a time.** -/
def isTime : List Char → Bool
  | h₁ :: h₂ :: ':' :: m₁ :: m₂ :: rest =>
    isUpTo 23 [h₁, h₂] && isUpTo 59 [m₁, m₂] && isSeconds rest
  | _ => false

/-- Whether a character starts an offset. -/
def isOffsetMark (c : Char) : Bool := c == 'Z' || c == 'z' || c == '+' || c == '-'

/-- Whether this is nothing, or an offset. -/
def isOffset : List Char → Bool
  | [] => true
  | [c] => c == 'Z' || c == 'z'
  | [c, h₁, h₂, ':', m₁, m₂] =>
    (c == '+' || c == '-') && isUpTo 23 [h₁, h₂] && isUpTo 59 [m₁, m₂]
  | _ => false

/-- Whether a character may stand between a date and a time. -/
def isDateEnd (c : Char) : Bool := c == 'T' || c == 't' || c == ' '

/-- Whether this is a date with a time, which may have an offset. -/
def isDateWithTime (cs : List Char) : Bool :=
  isDate (cs.take 10) &&
    match cs.drop 10 with
    | [] => false
    | c :: rest =>
      isDateEnd c && isTime (rest.takeWhile (!isOffsetMark ·)) &&
        isOffset (rest.dropWhile (!isOffsetMark ·))

/-- **Whether this is a date, a time, or both.** -/
def isDateTime (cs : List Char) : Bool :=
  isDate cs || isTime cs || isDateWithTime cs

end DelphiUnits.Toml

import BreakRules.Toml.Number

/-!
# Dates and times in TOML

A date, a time of day, or both with a `T` or a blank between them and possibly
the distance from universal time behind them. A time may leave out its seconds.
Only days that exist are dates; a minute may have a sixtieth second.
-/

namespace BreakRules.Toml

def twoDigits? (a b : Char) : Option Nat := do
  let x ← if isDigitOf 10 a then hexDigit? a else none
  let y ← if isDigitOf 10 b then hexDigit? b else none
  return 10 * x + y

def isLeapYear (year : Nat) : Bool :=
  year % 4 == 0 && (year % 100 != 0 || year % 400 == 0)

def daysIn (year month : Nat) : Nat :=
  if month = 2 then (if isLeapYear year then 29 else 28)
  else if month ∈ [4, 6, 9, 11] then 30
  else 31

/-- What follows a date, if the text begins with one. -/
def dropDate? : List Char → Option (List Char)
  | y₁ :: y₂ :: y₃ :: y₄ :: '-' :: m₁ :: m₂ :: '-' :: d₁ :: d₂ :: rest => do
      let year := 100 * (← twoDigits? y₁ y₂) + (← twoDigits? y₃ y₄)
      let month ← twoDigits? m₁ m₂
      let day ← twoDigits? d₁ d₂
      if 1 ≤ month ∧ month ≤ 12 ∧ 1 ≤ day ∧ day ≤ daysIn year month then some rest else none
  | _ => none

/-- What follows the parts of a second, if there are any. -/
def dropParts? : List Char → Option (List Char)
  | '.' :: rest =>
      if (rest.takeWhile (isDigitOf 10)).isEmpty then none
      else some (rest.dropWhile (isDigitOf 10))
  | rest => some rest

def dropMinutes? : List Char → Option (List Char)
  | h₁ :: h₂ :: ':' :: m₁ :: m₂ :: rest => do
      if (← twoDigits? h₁ h₂) ≤ 23 ∧ (← twoDigits? m₁ m₂) ≤ 59 then some rest else none
  | _ => none

def dropTime? (text : List Char) : Option (List Char) := do
  match ← dropMinutes? text with
  | ':' :: s₁ :: s₂ :: rest => if (← twoDigits? s₁ s₂) ≤ 60 then dropParts? rest else none
  | rest => some rest

/-- Whether a text is the distance from universal time, or empty. -/
def isOffset (text : List Char) : Bool :=
  match text with
  | [] => true
  | ['Z'] => true
  | ['z'] => true
  | '+' :: rest => dropMinutes? rest == some []
  | '-' :: rest => dropMinutes? rest == some []
  | _ => false

/-- Whether a character may stand between a date and a time. -/
def isDateMark (c : Char) : Bool :=
  c == 'T' || c == 't' || c == ' '

/-- Whether a text is a date, a time or both. -/
def isMoment (text : List Char) : Bool :=
  match dropDate? text with
  | some [] => true
  | some (c :: rest) => isDateMark c && (dropTime? rest).any isOffset
  | none => dropTime? text == some []

end BreakRules.Toml

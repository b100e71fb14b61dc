/-!
# Numbers in TOML

A number is a whole number, a fraction, or one of the words for infinity and
for what is no number. No setting has a number, so only its form is read and
not its value: a whole number may have any size, behind the sign of a base the
digits may be left out, and of a number with underscores only the ends of its
groups are looked at.
-/

namespace BreakRules.Toml

def hexDigit? (c : Char) : Option Nat :=
  if '0' ≤ c ∧ c ≤ '9' then some (c.toNat - '0'.toNat)
  else if 'a' ≤ c ∧ c ≤ 'f' then some (c.toNat - 'a'.toNat + 10)
  else if 'A' ≤ c ∧ c ≤ 'F' then some (c.toNat - 'A'.toNat + 10)
  else none

def isDigitOf (base : Nat) (c : Char) : Bool :=
  (hexDigit? c).any (· < base)

/-- Whether a text is made of digits of a base. Underscores may stand between
digits. -/
def isDigits (base : Nat) (text : List Char) : Bool :=
  (text.splitOn '_').all fun group => !group.isEmpty && group.all (isDigitOf base)

def dropSign : List Char → List Char
  | '+' :: rest => rest
  | '-' :: rest => rest
  | text => text

/-- A whole number in decimal digits. Only zero begins with the digit zero. -/
def isDecimal (text : List Char) : Bool :=
  match text with
  | '0' :: _ :: _ => false
  | _ => isDigits 10 text

def isExponent (text : List Char) : Bool :=
  isDigits 10 (dropSign text)

def isExponentMark (c : Char) : Bool :=
  c == 'e' || c == 'E'

/-- The digits behind the point of a fraction, and an exponent if there is one. -/
def isFractionTail (text : List Char) : Bool :=
  isDigits 10 (text.takeWhile (!isExponentMark ·)) &&
    match text.dropWhile (!isExponentMark ·) with
    | [] => true
    | _ :: exponent => isExponent exponent

/-- A number with a point or an exponent, without its sign. -/
def isFraction (text : List Char) : Bool :=
  let ends (c : Char) := c == '.' || isExponentMark c
  isDecimal (text.takeWhile (!ends ·)) &&
    match text.dropWhile (!ends ·) with
    | [] => false
    | c :: rest => if c == '.' then isFractionTail rest else isExponent rest

/-- A whole number in a base other than ten, behind the sign of the base. -/
def isBased (base : Nat) (text : List Char) : Bool :=
  text.isEmpty || isDigits base text

def startsGroup (group : List Char) : Bool :=
  group.head?.any (isDigitOf 16)

def endsGroup (group : List Char) : Bool :=
  group.getLast?.any (isDigitOf 16)

/-- A whole number with underscores. It begins with decimal digits, the first of
them not zero. Every underscore stands between digits, which may be
hexadecimal; what else is in a group is not looked at, but neither a blank nor
what would make it a fraction. -/
def isGrouped (text : List Char) : Bool :=
  match text.splitOn '_' with
  | [] => false
  | first :: groups =>
      first.head?.any (· != '0') && first.all (isDigitOf 10) && !groups.isEmpty &&
        groups.all startsGroup && groups.dropLast.all endsGroup &&
          groups.all fun group => !group.any fun c => c == ' ' || c == '.' || isExponentMark c

def isNumber (text : List Char) : Bool :=
  match text with
  | '0' :: 'x' :: digits => isBased 16 digits
  | '0' :: 'o' :: digits => isBased 8 digits
  | '0' :: 'b' :: digits => isBased 2 digits
  | _ =>
      let unsigned := dropSign text
      isDecimal unsigned || isGrouped unsigned || isFraction unsigned ||
        unsigned == ['i', 'n', 'f'] || unsigned == ['n', 'a', 'n']

end BreakRules.Toml

import BreakRules.Text.Unprintable

/-!
# Blanks, lines, padding and quotes

A character is blank when it has the Unicode property White_Space. `words`
cuts a text at its blanks and keeps the non-empty pieces, so a word is never
empty and never holds a blank.

A line ends at a line feed, and one carriage return right before the line feed
belongs to the end of the line. A carriage return anywhere else is a character
of its line. A text that ends with a line feed has no empty line after it, so
the empty text has no line at all.

A quoted text stands between double quotes. A quote, a backslash and the
controls with a letter of their own are written with a backslash, every other
unprintable character by its number in hexadecimal digits between braces.
-/

namespace BreakRules.Text

/-! ### Blanks and words -/

/-- The characters with the property White_Space: the blank, the controls from
tab to carriage return, the next-line control, and the spaces and separators
outside ASCII. The zero-width characters are not among them. -/
def isBlank (c : Char) : Bool :=
  let n := c.toNat
  (0x09 ≤ n && n ≤ 0x0D) || n == 0x20 || n == 0x85 || n == 0xA0 || n == 0x1680 ||
    (0x2000 ≤ n && n ≤ 0x200A) || n == 0x2028 || n == 0x2029 || n == 0x202F ||
    n == 0x205F || n == 0x3000

def words (text : List Char) : List (List Char) :=
  (text.splitOnP isBlank).filter (!·.isEmpty)

def dropEndWhile (p : Char → Bool) (text : List Char) : List Char :=
  (text.reverse.dropWhile p).reverse

def trimEnd (text : List Char) : List Char :=
  dropEndWhile isBlank text

def trim (text : List Char) : List Char :=
  trimEnd (text.dropWhile isBlank)

/-! ### Lines -/

/-- The line without the carriage return it ends with, if it ends with one. -/
def dropReturn (line : List Char) : List Char :=
  if line.getLast? = some '\r' then line.dropLast else line

/-- The lines of a text. All pieces between line feeds but the last are closed
by a line feed; the last one is a line only if it is not empty. -/
def lines (text : List Char) : List (List Char) :=
  let pieces := text.splitOn '\n'
  pieces.dropLast.map dropReturn ++ (pieces.getLast?.toList.filter (!·.isEmpty))

/-! ### Padding and quotes -/

/-- The text with blanks at its end up to a width. A text that is wide enough
stays as it is. -/
def padRight (width : Nat) (s : String) : String :=
  s ++ .ofList (List.replicate (width - s.length) ' ')

/-- The lower-case hexadecimal digits of a number, at least `width` of them. -/
def hexDigits (width n : Nat) : List Char :=
  let digits := Nat.toDigits 16 n
  List.replicate (width - digits.length) '0' ++ digits

def quotedChar (c : Char) : List Char :=
  if c = '\x00' then ['\\', '0']
  else if c = '\t' then ['\\', 't']
  else if c = '\r' then ['\\', 'r']
  else if c = '\n' then ['\\', 'n']
  else if c = '\\' ∨ c = '"' then ['\\', c]
  else if isUnprintable c then ['\\', 'u', '\x7b'] ++ hexDigits 1 c.toNat ++ ['\x7d']
  else [c]

/-- A text between quotes, with everything readable. -/
def quoted (s : String) : String :=
  .ofList ('"' :: (s.toList.flatMap quotedChar ++ ['"']))

end BreakRules.Text

/-!
# Text without terminal controls

A text that is shown on a terminal must not steer it. `plain` leaves out escape
sequences and controls, and keeps the tab, the line feed, the form feed, the
carriage return and every character that is no control.

Sequences are found as terminals find them, from left to right and whether they
are complete or not. Inside some of them the controls that lay out a text are
still obeyed, so these are kept there, and with them everything up to the next
control. That control is then read as if nothing had come in between.
-/

namespace BreakRules.Text

/-- What a terminal is in the middle of. -/
inductive Sequence where
  /-- Nothing: characters are shown. -/
  | ground
  /-- Behind the escape character. -/
  | escape
  /-- Behind the escape character and signs that qualify what follows. -/
  | qualified
  /-- In a control sequence, up to its final letter. -/
  | control
  /-- At the head of a device control string. -/
  | device
  /-- In the parameters of a device control string. -/
  | deviceParameters
  /-- Behind signs that qualify a device control string. -/
  | deviceQualified
  /-- In a string that is not shown. -/
  | hidden
  /-- In a command to the operating system, up to the bell. -/
  | command
deriving DecidableEq, Repr, Inhabited

/-- A control that lays out a text. -/
def isLayout (c : Char) : Bool :=
  c == '\t' || c == '\n' || c == '\x0c' || c == '\r'

def isShown (c : Char) : Bool :=
  isLayout c || (0x20 ≤ c.toNat && c.toNat ≠ 0x7F)

/-- Whether the encoding of a character has the byte that closes hidden
strings. -/
def closesHidden (c : Char) : Bool :=
  (String.utf8EncodeChar c).contains 0x9C

def within (lo hi n : Nat) : Bool :=
  lo ≤ n && n < hi

namespace Sequence

/-- What a terminal is in the middle of behind one more character. -/
def next (s : Sequence) (c : Char) : Sequence :=
  let n := c.toNat
  if n = 0x1B then escape
  else if n = 0x18 ∨ n = 0x1A then ground
  else
    match s with
    | ground => ground
    | escape =>
        if within 0x20 0x30 n then qualified
        else if !within 0x30 0x7F n then escape
        else if c = '[' then control
        else if c = ']' then command
        else if c = 'P' then device
        else if c = 'X' ∨ c = '^' ∨ c = '_' then hidden
        else ground
    | qualified => if within 0x30 0x7F n then ground else qualified
    | control => if within 0x40 0x7F n then ground else control
    | device =>
        if within 0x20 0x30 n then deviceQualified
        else if within 0x30 0x40 n then deviceParameters
        else if within 0x40 0x7F n then hidden
        else device
    | deviceParameters =>
        if within 0x20 0x30 n then deviceQualified
        else if within 0x3C 0x7F n then hidden
        else deviceParameters
    | deviceQualified => if within 0x30 0x7F n then hidden else deviceQualified
    | hidden => if closesHidden c then ground else hidden
    | command => if n = 0x07 then ground else command

/-- Whether a character is shown by a terminal in the middle of something. -/
def shows (s : Sequence) (c : Char) : Bool :=
  match s with
  | ground => isShown c
  | escape | qualified | control => isLayout c
  | _ => false

end Sequence

/-- What is shown of a text by a terminal in the middle of something. `showing`
says whether the character before was shown. -/
def shown (s : Sequence) (showing : Bool) : List Char → List Char
  | [] => []
  | c :: rest =>
      if s.shows c || (showing && isShown c) then
        c :: shown (if c.toNat < 0x80 then s else .ground) true rest
      else shown (s.next c) false rest

def plain (s : String) : String :=
  .ofList (shown .ground false s.toList)

end BreakRules.Text

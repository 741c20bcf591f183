/-!
# Texts without control sequences

`plain s` is a text without what would only steer a terminal: control characters other than blanks,
and the sequences that an escape character begins. A blank ends a sequence that is no string.
-/

namespace Bindery.Text

/-- What the characters so far have begun. -/
inductive ControlState where
  /-- Nothing: what comes is text. -/
  | text
  /-- A sequence of which only the escape character is there. -/
  | escape
  /-- A sequence after which one character is still to come. -/
  | intermediate
  /-- A control sequence with its parameters. -/
  | parameters
  /-- The head of a device control string, then its parameters, then what stands after those. -/
  | device
  | deviceParameters
  | deviceIntermediate
  /-- A string that ends at a string terminator. -/
  | string
  /-- A command to the operating system, which ends at a bell. -/
  | command
  deriving DecidableEq, Inhabited

def isControlBlank (c : Char) : Bool := c = '\t' || c = '\n' || c = '\x0c' || c = '\r'

/-- The character belongs to a text. -/
def isShown (c : Char) : Bool := (0x20 ≤ c.toNat && c.toNat ≠ 0x7F) || isControlBlank c

/-- One of the bytes of the character is a string terminator. -/
def endsString (c : Char) : Bool := (String.utf8EncodeChar c).contains 0x9C

namespace ControlState

/-- What the next character of a sequence makes of it. -/
def advance (s : ControlState) (c : Char) : ControlState :=
  let n := c.toNat
  let isFinal := 0x40 ≤ n && n < 0x7F
  let isParameter := 0x30 ≤ n && n < 0x40
  let isIntermediate := 0x20 ≤ n && n < 0x30
  match s with
  | .text => .text
  | .escape =>
    if isIntermediate then .intermediate
    else if c = '[' then .parameters
    else if c = ']' then .command
    else if c = 'P' then .device
    else if c = 'X' || c = '^' || c = '_' then .string
    else if isParameter || isFinal then .text
    else .escape
  | .intermediate => if isParameter || isFinal then .text else .intermediate
  | .parameters => if isFinal then .text else .parameters
  | .device =>
    if isIntermediate then .deviceIntermediate
    else if isParameter then .deviceParameters
    else if isFinal then .string
    else .device
  | .deviceParameters =>
    if isIntermediate then .deviceIntermediate
    else if isFinal || (isParameter && 0x3C ≤ n) then .string
    else .deviceParameters
  | .deviceIntermediate => if isParameter || isFinal then .string else .deviceIntermediate
  | .string => if endsString c then .text else .string
  | .command => if n = 0x07 then .text else .command

/-- A blank is a blank after all. -/
def endsAtBlank : ControlState → Bool
  | .escape | .intermediate | .parameters => true
  | _ => false

end ControlState

/-- What is left of a text that goes on from a state. -/
def plainFrom : ControlState → List Char → List Char
  | _, [] => []
  | s, c :: cs =>
    if c = '\x18' ∨ c = '\x1a' then plainFrom .text cs
    else if c = '\x1b' then plainFrom .escape cs
    else if s = .text then if isShown c then c :: plainFrom .text cs else plainFrom .text cs
    else if s.endsAtBlank ∧ isControlBlank c then c :: plainFrom .text cs
    else plainFrom (s.advance c) cs

def plain (s : List Char) : List Char := plainFrom .text s

end Bindery.Text

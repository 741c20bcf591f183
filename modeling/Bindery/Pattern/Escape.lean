import Bindery.Pattern.Scan
import Bindery.Text.Hexadecimal

/-!
# Characters and escapes of patterns

`Scanner.escape` reads what follows a backslash: a character, a class of characters or an anchor.
-/

namespace Bindery.Pattern

/-- What stands for itself in a pattern, or is named by a letter. -/
inductive Primitive where
  /-- A character, perhaps given by the two digits of a byte. -/
  | char (c : Char) (isByte : Bool)
  | set (s : CharSet)
  | anchor (a : Anchor)
  | dot
  deriving DecidableEq, Inhabited

/-- The characters that mean something in a pattern. -/
def isMeta (c : Char) : Bool := "\\.+*?()|[]\x7b\x7d^$#&-~".toList.contains c

/-- A backslash before the character changes nothing. -/
def isEscapable (c : Char) : Bool :=
  isMeta c || (c.toNat < 0x80 && !c.isAlphanum && c != '<' && c != '>')

def controlEscape? : Char → Option Char
  | 'a' => some '\x07'
  | 'f' => some '\x0c'
  | 't' => some '\t'
  | 'n' => some '\n'
  | 'r' => some '\r'
  | 'v' => some '\x0b'
  | _ => none

/-- How many hexadecimal digits follow the letter of an escape. -/
def hexDigits? : Char → Option Nat
  | 'x' => some 2
  | 'u' => some 4
  | 'U' => some 8
  | _ => none

/-- The class that a letter names. A capital names what is not in it. -/
def letterClass? (unicode : Bool) (c : Char) : Option CharSet :=
  match c.toLower with
  | 'd' => some (if unicode then .decimal else CharSet.asciiDecimal)
  | 's' => some (if unicode then .blank else CharSet.asciiBlank)
  | 'w' => some (if unicode then .word else CharSet.asciiWord)
  | _ => none

/-- The property of a name, in which case, blanks and lines between words mean nothing. -/
def property? (name : List Char) : Option CharSet :=
  let name := (name.filter fun c => c ≠ ' ' && c ≠ '_' && c ≠ '-').map Char.toLower
  let name := if "is".toList.isPrefixOf name then name.drop 2 else name
  match String.ofList name with
  | "any" => some .any
  | "ascii" => some (.range '\x00' '\x7f')
  | "nd" | "decimalnumber" | "digit" => some .decimal
  | "whitespace" | "space" | "wspace" => some .blank
  | _ => none

def specialBoundary? : String → Option (Bool → Anchor)
  | "start" => some .wordStart
  | "end" => some .wordEnd
  | "start-half" => some .wordStartHalf
  | "end-half" => some .wordEndHalf
  | _ => none

namespace Scanner

/-- A character by its number, if it has one. -/
def char? (digits : List Char) : Option Char := do
  let n ← Text.hexValue? digits
  if n.isValidChar then some (Char.ofNat n) else none

/-- A fixed number of hexadecimal digits, with the blanks after each. -/
def fixedHex : Nat → Scanner (List Char)
  | 0 => return []
  | n + 1 => do
    match ← peek with
    | none => fail .escapeUnfinished (← since (← here))
    | some c =>
      if (Text.hexValue? [c]).isNone then fail .hexDigit (← hereChar)
      else
        discard step
        return c :: (← fixedHex n)

/-- What follows the letter of an escape by number. -/
def hexEscape (digits : Nat) : Scanner Primitive := do
  if !(← step) then fail .escapeUnfinished (← since (← here))
  if (← peek) = some '\x7b' then
    let brace ← here
    discard step
    let ds ← takeAll fun c => (Text.hexValue? [c]).isSome
    match ← peek with
    | none => fail .escapeUnfinished (← since brace)
    | some c => if c ≠ '\x7d' then fail .hexDigit (← hereChar)
    let stop ← here
    discard step
    if ds = [] then fail .hexEmpty (← since brace)
    match char? ds with
    | none => fail .hexInvalid ⟨brace + 1, stop⟩
    | some c => return .char c false
  else
    let first ← here
    let ds ← fixedHex digits
    match char? ds with
    | none => fail .hexInvalid (← since first)
    | some c => return .char c (digits == 2)

/-- What follows the letter of a property; `start` is the place of the backslash. -/
def property (start : Nat) (inverted : Bool) : Scanner Primitive := do
  if !(← step) then fail .escapeUnfinished (← since (← here))
  let name ←
    match ← peek with
    | some '\x7b' =>
      discard step
      let name ← takeAll (· ≠ '\x7d')
      if (← peek).isNone then fail .escapeUnfinished (← since (← here))
      skip 1
      pure name
    | some '\\' => fail .propertyInvalid (← hereChar)
    | c =>
      discard step
      pure c.toList
  let span ← since start
  let m ← mode
  if !m.unicode then doubt .unicodeNotAllowed span
  match property? name with
  | none =>
    doubt .propertyUnknown span
    return .set .empty
  | some s =>
    let s := if m.ignoreCase then .folded s else s
    return .set (if inverted then .complement s else s)

/-- The name in braces after a word boundary. Braces that begin otherwise are left for a count. -/
def boundaryName? (start : Nat) : Scanner (Option (Bool → Anchor)) := do
  let brace ← get
  let isNameChar (c : Char) : Bool := c.isAlpha || c == '-'
  if !(← step) then fail .boundaryUnfinished (← since start)
  let first ← here
  if !(← peek).any isNameChar then
    set brace
    return none
  let name ← takeAll isNameChar
  if (← peek) ≠ some '\x7d' then fail .boundaryUnclosed (← since brace.place)
  let stop ← here
  skip 1
  match specialBoundary? (String.ofList name) with
  | none => fail .boundaryUnknown ⟨first, stop⟩
  | some a => return some a

/-- What begins with a backslash. -/
def escape : Scanner Primitive := do
  let start ← here
  if !(← bump) then fail .escapeUnfinished (← since start)
  let c := (← peek).getD '\\'
  if c.isDigit then fail .backreference ⟨start, (← here) + 1⟩
  else if let some digits := hexDigits? c then hexEscape digits
  else if c.toLower = 'p' then property start c.isUpper
  else
    let m ← mode
    if let some s := letterClass? m.unicode c then
      skip 1
      if c.isUpper && !m.unicode then doubt .partialCharacter (← since start)
      return .set (if c.isUpper then .complement s else s)
    else
      skip 1
      if isEscapable c then return .char c false
      else if let some d := controlEscape? c then return .char d false
      else
        match c with
        | 'A' => return .anchor .textStart
        | 'z' => return .anchor .textEnd
        | 'b' =>
          let name ← if (← peek) = some '\x7b' then boundaryName? start else pure none
          return .anchor (name.getD .wordBoundary m.unicode)
        | 'B' => return .anchor (.noWordBoundary m.unicode)
        | '<' => return .anchor (.wordStart m.unicode)
        | '>' => return .anchor (.wordEnd m.unicode)
        | _ => fail .escapeUnknown (← since start)

end Scanner

end Bindery.Pattern

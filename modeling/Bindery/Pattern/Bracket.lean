import Bindery.Pattern.Escape

/-!
# Sets in brackets

`Scanner.bracket` reads a set of characters: single ones, ranges, named classes, other sets in
brackets, and operations on what stands between them, from left to right.
-/

namespace Bindery.Pattern

/-- The operation that two equal signs stand for. -/
def setOperation? : List Char → Option (CharSet → CharSet → CharSet)
  | '&' :: '&' :: _ => some .intersection
  | '-' :: '-' :: _ => some .difference
  | '~' :: '~' :: _ => some .symmetricDifference
  | _ => none

/-- A named class in front of a text: whether it is inverted, what it is, and its length. -/
def namedClass? (s : List Char) : Option (Bool × CharSet × Nat) :=
  match s with
  | '[' :: ':' :: s =>
    let inverted := s.head? = some '^'
    let name := (if inverted then s.tail else s).takeWhile (· ≠ ':')
    let length := name.length + if inverted then 3 else 2
    if (s.drop (length - 2)).take 2 = [':', ']'] then
      (CharSet.named? (String.ofList name)).map (inverted, ·, length + 2)
    else none
  | _ => none

/-- A set in the mode that is on. -/
def Mode.fold (m : Mode) (s : CharSet) : CharSet :=
  if !m.ignoreCase then s else if m.unicode then .folded s else .asciiFolded s

namespace Scanner

/-- A character of a set, which has to be in ASCII where Unicode is off. -/
def member (c : Char) (isByte : Bool) (span : Span) : Scanner Unit := do
  if !(← mode).unicode && 0x80 ≤ c.toNat then
    doubt (if isByte then .partialCharacter else .unicodeNotAllowed) span

/-- One character or escape of a set. -/
def setPrimitive : Scanner (Primitive × Span) := do
  let start ← here
  match ← peek with
  | some '\\' =>
    let p ← escape
    return (p, ← since start)
  | c =>
    skip 1
    return (.char (c.getD ' ') false, ← since start)

/-- An end of a range. -/
def boundary (p : Primitive × Span) : Scanner (Char × Bool) :=
  match p.1 with
  | .char c isByte => return (c, isByte)
  | _ => fail .rangeBoundary p.2

/-- The character after the next one; where blanks mean nothing, they are passed over. -/
def peekBehind : Scanner (Option Char) := do
  let s ← get
  let r := s.rest.drop 1
  return (if s.mode.spaced then r.drop (Scan.blanks false r) else r).head?

/-- A character, a range or a class by a letter, in a set that begins at `opening`. -/
def setItem (opening : Span) : Scanner CharSet := do
  let p ← setPrimitive
  skipBlanks
  match ← peek with
  | none => fail .setUnclosed opening
  | some c =>
    let behind ← peekBehind
    if c = '-' ∧ behind ≠ some ']' ∧ behind ≠ some '-' then
      if !(← step) then fail .setUnclosed opening
      let q ← setPrimitive
      let (first, isByte) ← boundary p
      let (last, isByte') ← boundary q
      if last < first then fail .rangeReversed ⟨p.2.start, q.2.stop⟩
      member first isByte p.2
      member last isByte' q.2
      return .range first last
    else
      match p.1 with
      | .char c isByte =>
        member c isByte p.2
        return .singleton c
      | .set s => return s
      | _ => fail .escapeInSet p.2

/-- Hyphens, or else a closing bracket, that stand for themselves at the start of a set, and
whether there is anything after them. `start` is the place of the bracket. -/
def leadingHyphens (start : Nat) : Nat → CharSet → Scanner CharSet
  | 0, s => return s
  | n + 1, s => do
    if (← peek) = some '-' then
      if !(← step) then fail .setUnclosed ⟨start, start⟩
      leadingHyphens start n (.union s (.singleton '-'))
    else return s

/-- The beginning of a set: whether it is inverted, and the signs that stand for themselves. -/
def setOpening : Scanner (Bool × CharSet) := do
  let start ← here
  if !(← step) then fail .setUnclosed (← since start)
  let inverted := (← peek) = some '^'
  if inverted then
    if !(← step) then fail .setUnclosed (← since start)
  let s ← leadingHyphens start (← get).rest.length .empty
  if s = .empty ∧ (← peek) = some ']' then
    if !(← step) then fail .setUnclosed (← since start)
    return (inverted, .singleton ']')
  else return (inverted, s)

/-- What an operation that waits for its right side makes of it. -/
def combine (m : Mode) (left : Option (CharSet → CharSet)) (right : CharSet) : CharSet :=
  match left with
  | none => right
  | some f => f (m.fold right)

mutual

/-- A set from its opening bracket on; `fuel` bounds what is still to be read. -/
def bracket (fuel : Nat) : Scanner CharSet :=
  match fuel with
  | 0 => return .empty
  | fuel + 1 => do
    let start ← here
    let (inverted, s) ← setOpening
    let s ← setBody fuel (← since start) none s
    skip 1
    let m ← mode
    if inverted then
      if !m.unicode then doubt .partialCharacter (← since start)
      return .complement (m.fold s)
    else return m.fold s

/-- The rest of a set up to its closing bracket; `items` is what has come since the last operation,
and `left` what that operation makes of it. -/
def setBody (fuel : Nat) (opening : Span) (left : Option (CharSet → CharSet)) (items : CharSet) :
    Scanner CharSet :=
  match fuel with
  | 0 => fail .setUnclosed opening
  | fuel + 1 => do
    skipBlanks
    let m ← mode
    let rest := (← get).rest
    match rest with
    | [] => fail .setUnclosed opening
    | ']' :: _ => return combine m left items
    | '[' :: _ =>
      match namedClass? rest with
      | some (inverted, s, length) =>
        let start ← here
        skip length
        if inverted && !m.unicode then doubt .partialCharacter (← since start)
        let s := if inverted then .complement (m.fold s) else m.fold s
        setBody fuel opening left (.union items s)
      | none =>
        let s ← bracket fuel
        setBody fuel opening left (.union items s)
    | _ =>
      match setOperation? rest with
      | some f =>
        skip 2
        setBody fuel opening (some (f (m.fold (combine m left items)))) .empty
      | none =>
        let s ← setItem opening
        setBody fuel opening left (.union items s)

end

end Scanner

end Bindery.Pattern

import Bindery.Pattern.Bracket

/-!
# Reading patterns

`Pattern.ofText` reads a whole text as a pattern: branches between bars, each a sequence of
characters, classes, anchors, groups and repetitions of what is before them.
-/

namespace Bindery.Pattern

/-- How often what is before a sign comes. -/
def repetition? : Char → Option (Nat × Option Nat)
  | '*' => some (0, none)
  | '+' => some (1, none)
  | '?' => some (0, some 1)
  | _ => none

/-- A flag as it is put on or off. -/
def setFlag? (m : Mode) (on : Bool) : Char → Option Mode
  | 'i' => some { m with ignoreCase := on }
  | 'm' => some { m with multiLine := on }
  | 's' => some { m with dotAll := on }
  | 'u' => some { m with unicode := on }
  | 'R' => some { m with anyLineEnd := on }
  | 'x' => some { m with spaced := on }
  -- which of several matches is taken does not matter
  | 'U' => some m
  | _ => none

def isNameChar (isFirst : Bool) (c : Char) : Bool :=
  c == '_' ||
    if isFirst then if c.toNat < 0x80 then c.isAlpha else Text.isWord c
    else
      c == '.' || c == '[' || c == ']' ||
        if c.toNat < 0x80 then c.isAlphanum else Text.isWord c

/-- What a dot stands for. -/
def Mode.dot (m : Mode) : CharSet :=
  if m.dotAll then .any
  else .complement (if m.anyLineEnd then CharSet.ranges [('\n', '\n'), ('\r', '\r')]
    else .singleton '\n')

/-- A character by itself. -/
def Mode.char (m : Mode) (c : Char) : CharSet := m.fold (.singleton c)

def Mode.startAnchor (m : Mode) : Anchor :=
  if !m.multiLine then .textStart else if m.anyLineEnd then .anyLineStart else .lineStart

def Mode.endAnchor (m : Mode) : Anchor :=
  if !m.multiLine then .textEnd else if m.anyLineEnd then .anyLineEnd else .lineEnd

/-- The items of a sequence, the last one first, without those that only set flags. -/
def ofItems (items : List (Option Pattern)) : Pattern := sequences (items.reverse.filterMap id)

namespace Scanner

/-- A decimal number with blanks around it, if there is one that 32 bits hold. -/
def decimal : Scanner (Except Fault Nat) := do
  discard (takeAll Text.isBlank)
  let start ← here
  let ds ← takeAll Char.isDigit
  let span ← since start
  discard (takeAll Text.isBlank)
  let n := ds.foldl (fun n c => n * 10 + (c.toNat - '0'.toNat)) 0
  if ds = [] then return .error { flaw := .countEmpty, span := span }
  else if 1 <<< 32 ≤ n then return .error { flaw := .decimalInvalid, span := span }
  else return .ok n

/-- The numbers in braces after an item. -/
def count : Scanner (Nat × Option Nat) := do
  let start ← here
  if !(← step) then fail .countUnclosed (← since start)
  let first ← decimal
  let (least, most) ←
    match ← peek with
    | none => fail .countUnclosed (← since start)
    | some c =>
      if c = ',' then
        if !(← step) then fail .countUnclosed (← since start)
        let least ← first
        if (← peek) = some '\x7d' then pure (least, none)
        else pure (least, some (← (← decimal)))
      else
        let n ← first
        pure (n, some n)
  if (← peek) ≠ some '\x7d' then fail .countUnclosed (← since start)
  if ← step then
    if (← peek) = some '?' then skip 1
  if most.any (· < least) then fail .countReversed (← since start)
  return (least, most)

/-- Flags up to a colon or a closing bracket. `seen` are those that have come, with the sign between
those to be put on and those to be put off, which `dangling` is the place of if it came last. -/
def flags (m : Mode) (on : Bool) (seen : List (Char × Span)) (dangling : Option Span) :
    Nat → Scanner (Mode × Bool)
  | 0 => return (m, seen.isEmpty)
  | n + 1 => do
    let span ← hereChar
    match ← peek with
    | none => fail .flagUnfinished (← since (← here))
    | some c =>
      if c = ':' ∨ c = ')' then
        match dangling with
        | some span => fail .flagDangling span
        | none => return (m, seen.isEmpty)
      else if c = '-' then
        if let some first := seen.lookup c then failAgain .negationRepeated span first
        skip 1
        flags m false ((c, span) :: seen) (some span) n
      else
        match setFlag? m on c with
        | none => fail .flagUnknown span
        | some m =>
          if let some first := seen.lookup c then failAgain .flagRepeated span first
          skip 1
          flags m on ((c, span) :: seen) none n

/-- The name of a group up to the sign that closes it. -/
def groupName : Scanner Unit := do
  if (← peek).isNone then fail .nameUnfinished (← since (← here))
  let start ← here
  let rest := (← get).rest
  let name := rest.takeWhile (· ≠ '>')
  match name.zipIdx.find? fun (c, i) => !isNameChar (i = 0) c with
  | some (_, i) => fail .nameInvalid ⟨start + i, start + i + 1⟩
  | none =>
    skip name.length
    if (← peek).isNone then fail .nameUnfinished (← since (← here))
    let span ← since start
    skip 1
    if name = [] then fail .nameEmpty ⟨start, start⟩
    let name := String.ofList name
    if let some first := (← get).names.lookup name then failAgain .nameRepeated span first
    modify fun s => { s with names := (name, span) :: s.names }

/-- A character, class or anchor outside sets. -/
def item : Scanner Pattern := do
  let start ← here
  let m ← mode
  let p ←
    match ← peek with
    | some '\\' => escape
    | some '.' => skip 1; pure .dot
    | some '^' => skip 1; pure (.anchor m.startAnchor)
    | some '$' => skip 1; pure (.anchor m.endAnchor)
    | c => skip 1; pure (.char (c.getD ' ') false)
  match p with
  | .char c isByte =>
    if isByte && !m.unicode && 0x80 ≤ c.toNat then doubt .partialCharacter (← since start)
    return .one (m.char c)
  | .set s => return .one s
  | .anchor a => return .anchor a
  | .dot =>
    if !m.unicode then doubt .partialCharacter (← since start)
    return .one m.dot

/-- The items before a sign of repetition; there has to be one that is not only a flag. -/
def repeatable (items : List (Option Pattern)) : Scanner (Pattern × List (Option Pattern)) :=
  match items with
  | some p :: items => return (p, items)
  | _ => do fail .repetitionOfNothing (← since (← here))

mutual

/-- Branches up to a closing bracket or the end; `fuel` bounds what is still to be read. -/
def branches (fuel : Nat) : Scanner Pattern :=
  match fuel with
  | 0 => return .empty
  | fuel + 1 => do
    let p ← items fuel []
    if (← peek) = some '|' then
      skip 1
      return .either p (← branches fuel)
    else return p

/-- The items of a branch after those that are read. -/
def items (fuel : Nat) (read : List (Option Pattern)) : Scanner Pattern :=
  match fuel with
  | 0 => return ofItems read
  | fuel + 1 => do
    skipBlanks
    match ← peek with
    | none | some '|' | some ')' => return ofItems read
    | some '(' =>
      let p ← group fuel
      items fuel (p :: read)
    | some '[' =>
      let s ← bracket fuel
      items fuel (some (.one s) :: read)
    | some '\x7b' =>
      let (p, read) ← repeatable read
      let (least, most) ← count
      items fuel (some (.repeated p least most) :: read)
    | some c =>
      match repetition? c with
      | some (least, most) =>
        let (p, read) ← repeatable read
        if ← bump then
          if (← peek) = some '?' then skip 1
        items fuel (some (.repeated p least most) :: read)
      | none =>
        let p ← item
        items fuel (some p :: read)

/-- A group from its opening bracket on, unless it only sets flags. -/
def group (fuel : Nat) : Scanner (Option Pattern) :=
  match fuel with
  | 0 => return none
  | fuel + 1 => do
    let opening ← hereChar
    skip 1
    skipBlanks
    for sign in ["?=", "?!", "?<=", "?<!"] do
      if ← skipIf sign then fail .lookaround (← since opening.start)
    let inner ← here
    let outer ← mode
    let isCapture ← if ← skipIf "?P<" then pure true else skipIf "?<"
    if isCapture then groupName
    else if ← skipIf "?" then
      if (← peek).isNone then fail .groupUnclosed opening
      let (m, isEmpty) ← flags outer true [] none ((← get).rest.length + 1)
      let last ← peek
      skip 1
      if last = some ')' && isEmpty then fail .repetitionOfNothing ⟨inner, inner⟩
      setMode m
      if last = some ')' then return none
    let p ← branches fuel
    if (← peek).isNone then fail .groupUnclosed opening
    skip 1
    setMode outer
    return some p

end

/-- A whole pattern. -/
def pattern : Scanner Pattern := do
  let p ← branches (2 * (← get).rest.length + 2)
  if (← peek).isSome then fail .groupUnopened (← hereChar)
  return p

end Scanner

/-- The pattern that a text describes. -/
def ofText (text : List Char) : Except Fault Pattern := Scanner.run Scanner.pattern text

end Bindery.Pattern

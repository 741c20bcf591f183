/-!
# Faults of patterns

A `Fault` says what is wrong with the text of a pattern and where; `Fault.report` shows the text
with marks under those places.
-/

namespace Bindery.Pattern

/-- A part of a text, by the numbers of characters before its start and before its end. -/
structure Span where
  start : Nat
  stop : Nat
  deriving DecidableEq, Inhabited

inductive Flaw where
  | escapeInSet
  | rangeReversed
  | rangeBoundary
  | setUnclosed
  | decimalInvalid
  | hexEmpty
  | hexInvalid
  | hexDigit
  | escapeUnfinished
  | escapeUnknown
  | flagDangling
  | flagRepeated
  | negationRepeated
  | flagUnfinished
  | flagUnknown
  | nameRepeated
  | nameEmpty
  | nameInvalid
  | nameUnfinished
  | groupUnclosed
  | groupUnopened
  | countReversed
  | countEmpty
  | countUnclosed
  | repetitionOfNothing
  | boundaryUnclosed
  | boundaryUnknown
  | boundaryUnfinished
  | propertyInvalid
  | backreference
  | lookaround
  /-- A character outside ASCII, or a property, where Unicode is off. -/
  | unicodeNotAllowed
  /-- Something that would match a part of a character. -/
  | partialCharacter
  | propertyUnknown
  deriving DecidableEq, Inhabited

def Flaw.message : Flaw → String
  | escapeInSet => "invalid escape sequence found in character class"
  | rangeReversed => "invalid character class range, the start must be <= the end"
  | rangeBoundary => "invalid range boundary, must be a literal"
  | setUnclosed => "unclosed character class"
  | decimalInvalid => "decimal literal invalid"
  | hexEmpty => "hexadecimal literal empty"
  | hexInvalid => "hexadecimal literal is not a Unicode scalar value"
  | hexDigit => "invalid hexadecimal digit"
  | escapeUnfinished => "incomplete escape sequence, reached end of pattern prematurely"
  | escapeUnknown => "unrecognized escape sequence"
  | flagDangling => "dangling flag negation operator"
  | flagRepeated => "duplicate flag"
  | negationRepeated => "flag negation operator repeated"
  | flagUnfinished => "expected flag but got end of regex"
  | flagUnknown => "unrecognized flag"
  | nameRepeated => "duplicate capture group name"
  | nameEmpty => "empty capture group name"
  | nameInvalid => "invalid capture group character"
  | nameUnfinished => "unclosed capture group name"
  | groupUnclosed => "unclosed group"
  | groupUnopened => "unopened group"
  | countReversed => "invalid repetition count range, the start must be <= the end"
  | countEmpty => "repetition quantifier expects a valid decimal"
  | countUnclosed => "unclosed counted repetition"
  | repetitionOfNothing => "repetition operator missing expression"
  | boundaryUnclosed =>
    "special word boundary assertion is either unclosed or contains an invalid character"
  | boundaryUnknown =>
    "unrecognized special word boundary assertion, valid choices are: " ++
      "start, end, start-half or end-half"
  | boundaryUnfinished =>
    "found either the beginning of a special word boundary or a bounded repetition " ++
      "on a \\b with an opening brace, but no closing brace"
  | propertyInvalid => "invalid Unicode character class"
  | backreference => "backreferences are not supported"
  | lookaround => "look-around, including look-ahead and look-behind, is not supported"
  | unicodeNotAllowed => "Unicode not allowed here"
  | partialCharacter => "pattern can match invalid UTF-8"
  | propertyUnknown => "Unicode property not found"

structure Fault where
  flaw : Flaw
  span : Span
  /-- Where the same thing stands for the first time. -/
  first : Option Span := none
  deriving DecidableEq, Inhabited

/-! ### Reports -/

/-- The number of the line of a place and the characters before the place on that line. -/
def position (s : List Char) (place : Nat) : Nat × Nat :=
  let before := s.take place
  (before.count '\n', (before.reverse.takeWhile (· ≠ '\n')).length)

/-- Marks under the columns from `column` on, for parts of one line in their order. -/
def marks (column : Nat) : List (Nat × Nat) → String
  | [] => ""
  | (a, b) :: parts =>
    let width := max 1 (b - a)
    String.ofList (List.replicate (a - column) ' ' ++ List.replicate width '^') ++
      marks (max column a + width) parts

/-- The lines of a text without their ends. -/
def lines (s : List Char) : List (List Char) :=
  let ls := s.splitOn '\n'
  ls.dropLast.map (fun l => if l.getLast? = some '\r' then l.dropLast else l) ++
    ls.getLast?.toList.filter (· ≠ [])

/-- The text with marks, each line after its number if there are more than one. -/
def marked (s : List Char) (spans : List Span) : String :=
  let count := (lines s).length + if s.getLast? = some '\n' then 1 else 0
  let width := if count ≤ 1 then 0 else (toString count).length
  let margin := String.ofList (List.replicate (if width = 0 then 4 else 2 + width) ' ')
  let numbered (i : Nat) : String :=
    if width = 0 then margin
    else
      let digits := toString (i + 1)
      String.ofList (List.replicate (width - digits.length) ' ') ++ digits ++ ": "
  String.join ((lines s).zipIdx.map fun (line, i) =>
    let parts := spans.filterMap fun sp =>
      let (a, b) := (position s sp.start, position s sp.stop)
      if a.1 = i ∧ b.1 = i then some (a.2, b.2) else none
    numbered i ++ String.ofList line ++ "\n" ++
      if parts.isEmpty then "" else margin ++ marks 0 parts ++ "\n")

/-- Where a part of several lines stands. -/
def wideNote? (s : List Char) (sp : Span) : Option String :=
  let (a, b) := (position s sp.start, position s sp.stop)
  if a.1 = b.1 then none
  else
    some ("on line " ++ toString (a.1 + 1) ++ " (column " ++ toString (a.2 + 1) ++
      ") through line " ++ toString (b.1 + 1) ++ " (column " ++ toString b.2 ++ ")")

namespace Fault

def spans (f : Fault) : List Span :=
  match f.first with
  | none => [f.span]
  | some sp => if sp.start ≤ f.span.start then [sp, f.span] else [f.span, sp]

/-- The fault of a pattern, under the pattern's text. -/
def report (f : Fault) (pattern : List Char) : String :=
  let shown := marked pattern f.spans
  let body :=
    if pattern.contains '\n' then
      let divider := String.ofList (List.replicate 79 '~') ++ "\n"
      let notes := f.spans.filterMap (wideNote? pattern)
      divider ++ shown ++ divider ++
        if notes.isEmpty then "" else "\n".intercalate notes ++ "\n"
    else shown
  "regex parse error:\n" ++ body ++ "error: " ++ f.flaw.message

end Fault

end Bindery.Pattern

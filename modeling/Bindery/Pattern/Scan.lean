import Bindery.Pattern.Basic
import Bindery.Pattern.Fault

/-!
# Scanning the text of a pattern

A `Scanner` reads the text from left to right in a mode that the text itself may change. A fault of
form ends it; a fault of meaning is a doubt, which counts if the form is right to the end.
-/

namespace Bindery.Pattern

/-- How the text that comes is to be taken. -/
structure Mode where
  ignoreCase : Bool := false
  /-- Line ends are places of their own. -/
  multiLine : Bool := false
  /-- A dot is also a line feed. -/
  dotAll : Bool := false
  unicode : Bool := true
  /-- A carriage return also ends a line. -/
  anyLineEnd : Bool := false
  /-- Blanks and comments mean nothing. -/
  spaced : Bool := false
  deriving DecidableEq, Inhabited

structure Scan where
  rest : List Char
  /-- How many characters are read. -/
  place : Nat := 0
  mode : Mode := {}
  /-- The names of groups and where they stand. -/
  names : List (String × Span) := []
  /-- The first fault of meaning. -/
  doubt : Option Fault := none
  deriving Inhabited

abbrev Scanner := StateT Scan (Except Fault)

namespace Scan

/-- How many characters of blanks and comments are in front. -/
def blanks (inComment : Bool) : List Char → Nat
  | [] => 0
  | c :: s =>
    if inComment then blanks (c ≠ '\n') s + 1
    else if Text.isBlank c then blanks false s + 1
    else if c = '#' then blanks true s + 1
    else 0

def drop (s : Scan) (n : Nat) : Scan := { s with rest := s.rest.drop n, place := s.place + n }

end Scan

namespace Scanner

variable {α : Type}

def fail (flaw : Flaw) (span : Span) : Scanner α := throw { flaw := flaw, span := span }

/-- Fails as the same thing is already at `first`. -/
def failAgain (flaw : Flaw) (span first : Span) : Scanner α :=
  throw { flaw := flaw, span := span, first := some first }

def doubt (flaw : Flaw) (span : Span) : Scanner Unit :=
  modify fun s => { s with doubt := s.doubt.or (some { flaw := flaw, span := span }) }

def peek : Scanner (Option Char) := return (← get).rest.head?

def mode : Scanner Mode := return (← get).mode

def setMode (m : Mode) : Scanner Unit := modify fun s => { s with mode := m }

def here : Scanner Nat := return (← get).place

/-- From a place to the one reached. -/
def since (start : Nat) : Scanner Span := return ⟨start, ← here⟩

/-- The next character. -/
def hereChar : Scanner Span := return ⟨← here, (← here) + 1⟩

def skip (n : Nat) : Scanner Unit := modify (·.drop n)

def skipBlanks : Scanner Unit := do
  if (← mode).spaced then skip (Scan.blanks false (← get).rest)

/-- Goes on by a character; is there another? -/
def bump : Scanner Bool := do
  skip 1
  return (← peek).isSome

/-- Goes on by a character and the blanks after it; is there another character? -/
def step : Scanner Bool := do
  skip 1
  skipBlanks
  return (← peek).isSome

/-- Skips a word if it comes next. -/
def skipIf (word : String) : Scanner Bool := do
  if word.toList.isPrefixOf (← get).rest then
    skip word.length
    return true
  else return false

/-- The characters of which `p` holds, with the blanks after each. -/
def takeWhile (p : Char → Bool) : Nat → Scanner (List Char)
  | 0 => return []
  | n + 1 => do
    match (← peek).filter p with
    | none => return []
    | some c =>
      discard step
      return c :: (← takeWhile p n)

def takeAll (p : Char → Bool) : Scanner (List Char) := do
  takeWhile p (← get).rest.length

/-- The value of a scanner that has to read the whole text. -/
def run (p : Scanner α) (text : List Char) : Except Fault α := do
  let (x, s) ← StateT.run p { rest := text }
  match s.doubt with
  | some f => .error f
  | none => .ok x

end Scanner

end Bindery.Pattern

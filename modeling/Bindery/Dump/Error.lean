import Bindery.Dump.Attempts
import Bindery.File.System

/-!
# Failures of loading a dump

A syntax fault is reported with the line in which it stands and the constructs that were expected
there.
-/

namespace Bindery.Dump

/-- Where a text stops being a dump, and what could stand there. -/
structure Fault where
  source : List Char
  attempts : Attempts
  deriving Inhabited

namespace Fault

def before (f : Fault) : List Char := f.source.take f.attempts.pos

def after (f : Fault) : List Char := f.source.drop f.attempts.pos

def line (f : Fault) : Nat := f.before.count '\n' + 1

/-- The characters of the line that stand before the place. -/
def lineStart (f : Fault) : List Char := (f.before.reverse.takeWhile (· != '\n')).reverse

def column (f : Fault) : Nat := f.lineStart.length + 1

/-- The line with its end. -/
def wholeLine (f : Fault) : List Char :=
  f.lineStart ++ f.after.takeWhile (· != '\n') ++ (f.after.dropWhile (· != '\n')).take 1

/-- The line as shown: its ends are marked where the fault is at one of them, else left out. -/
def shownLine (f : Fault) : List Char :=
  if f.after.head? = some '\n' ∨ f.after.head? = some '\r' then
    f.wholeLine.map fun c => if c = '\r' then '␍' else if c = '\n' then '␊' else c
  else f.wholeLine.filter fun c => c != '\r' && c != '\n'

/-- What stands below the line, up to the column of the fault. -/
def underline (f : Fault) : List Char :=
  (f.shownLine.take (f.column - 1)).map (fun c => if c = '\t' then '\t' else ' ') ++
    "^---".toList

/-- A list of names as a text: `A`, `A or B`, `A, B, or C`. -/
def enumerate : List String → String
  | [] => ""
  | [a] => a
  | [a, b] => a ++ " or " ++ b
  | a :: as => ", ".intercalate (a :: as.dropLast) ++ ", or " ++ as.getLastD ""

def report (f : Fault) : String :=
  let line := toString f.line
  let margin := String.ofList (List.replicate line.length ' ')
  margin ++ "--> " ++ line ++ ":" ++ toString f.column ++ "\n" ++
    margin ++ " |\n" ++
    line ++ " | " ++ String.ofList f.shownLine ++ "\n" ++
    margin ++ " | " ++ String.ofList f.underline ++ "\n" ++
    margin ++ " |\n" ++
    margin ++ " = expected " ++ enumerate (Construct.namesOf f.attempts.constructs)

end Fault

inductive LoadError where
  | unreadable (path : String) (cause : FileError)
  | fault (origin : String) (fault : Fault)
  | repeatedUnit (file : String)
  deriving Inhabited

namespace LoadError

def message : LoadError → String
  | .unreadable path cause =>
    "failed to read declaration dump '" ++ path ++ "': " ++ cause.message
  | .fault origin f => "syntax error in declaration dump '" ++ origin ++ "':\n" ++ f.report
  | .repeatedUnit file => "translation unit '" ++ file ++ "' is declared twice"

/-- The message of what caused the error, if something did. -/
def causes : LoadError → List String
  | .unreadable _ cause => [cause.message]
  | .fault _ f => [f.report]
  | .repeatedUnit _ => []

end LoadError

end Bindery.Dump

import Bindery.Text.Blank
import Bindery.Text.Occurrence

/-!
# Decoration of emitted sources

A source gets a pragma at its top, the using directives that it lacks after its last one, and line
breaks in its documentation comments in place of their escaped form.
-/

namespace Bindery.Decoration

def pragma : String :=
  "#pragma warning disable CS0109 // The member 'member' does not hide an inherited member." ++
    " The new keyword is not required"

/-- The directives that every source has to have. -/
def usings : List String :=
  ["using System.Collections.Concurrent;", "using System.Numerics;",
    "using System.Runtime.CompilerServices;", "using System.Text;"]

/-- The line end of a text, which is taken to be the same everywhere. -/
def newline (s : List Char) : List Char :=
  if Text.contains ['\r', '\n'] s then ['\r', '\n'] else ['\n']

def lines (s : List Char) : List (List Char) := s.splitOn '\n'

def unlines (ls : List (List Char)) : List Char := ['\n'].intercalate ls

/-- Whether a directive has a line of its own, up to blanks at the end of the line. -/
def hasUsing (s : List Char) (directive : String) : Bool :=
  (lines s).any fun l => Text.trimEnd l == directive.toList

def missing (s : List Char) : List (List Char) :=
  (usings.filter fun u => !hasUsing s u).map String.toList

/-- The length of the using directive with which a line begins. -/
def usingLength? (line : List Char) : Option Nat :=
  let keyword := "using ".toList
  if keyword.isPrefixOf line then
    let rest := line.drop keyword.length
    let name := rest.takeWhile fun c => c != ';' && c != '\r'
    if name ≠ [] ∧ (rest.drop name.length).head? = some ';' then
      some (keyword.length + name.length + 1)
    else none
  else none

/-- The lines with a text behind the last using directive, if there is one. -/
def insertAfterUsings? (text : List Char) : List (List Char) → Option (List (List Char))
  | [] => none
  | l :: ls =>
    match insertAfterUsings? text ls with
    | some ls => some (l :: ls)
    | none => (usingLength? l).map fun n => (l.take n ++ text ++ l.drop n) :: ls

/-- The text with the missing directives after its last one, or before everything. -/
def addUsings (s : List Char) : List Char :=
  let nl := newline s
  let ds := missing s
  match insertAfterUsings? (ds.flatMap (nl ++ ·)) (lines s) with
  | some ls => unlines ls
  | none => ds.flatMap (· ++ nl) ++ s

/-- Whether a line is a documentation comment. -/
def isComment (line : List Char) : Bool :=
  "///".toList.isPrefixOf (line.dropWhile fun c => c = ' ' || c = '\t')

def mendComment (line : List Char) : List Char :=
  if isComment line then Text.replaceAll "&lt;br/&gt;".toList "<br/>".toList line else line

def addPragma (source s : List Char) : List Char :=
  if Text.contains pragma.toList source then s else pragma.toList ++ newline source ++ s

def decorate (s : List Char) : List Char :=
  addPragma s (unlines ((lines (addUsings s)).map mendComment))

end Bindery.Decoration

import Bindery.Log
import Bindery.Pattern.Parser

/-!
# Log filters

A `LogFilter` has directives, each of which gives a limit for the topics whose paths begin in some
way, and perhaps a pattern that every message has to match. `LogFilter.admits` lets a line through
if the directive with the longest beginning does.
-/

namespace Bindery

structure Directive where
  /-- How the path of a topic has to begin. If nothing is said, it may be any. -/
  scope : Option String := none
  /-- The rank of the least urgent level that is let through. -/
  limit : Nat
  deriving DecidableEq, Inhabited

namespace Directive

def covers (d : Directive) (path : String) : Bool :=
  d.scope.all fun s => s.toList.isPrefixOf path.toList

/-- Of two directives for one path, the one with the greater reach is the less general. -/
def reach (d : Directive) : Nat := (d.scope.getD "").utf8ByteSize

end Directive

/-- Why a part of a filter is passed over. -/
inductive FilterError where
  /-- More than one slash in the whole text. -/
  | slashes (text : String)
  | directive (text : String)
  | level (text : String)
  | pattern (text : String) (fault : Pattern.Fault)
  deriving DecidableEq, Inhabited

def FilterError.message : FilterError → String
  | .slashes text => "invalid logging spec '" ++ text ++ "' (too many '/'s)"
  | .directive text | .level text => "invalid logging spec '" ++ text ++ "'"
  | .pattern text fault => "invalid regex filter - " ++ fault.report text.toList

/-- What the error stream says of the error. -/
def FilterError.warning (e : FilterError) : String := "warning: " ++ e.message ++ ", ignoring it\n"

structure LogFilter where
  directives : List Directive
  pattern : Option Pattern := none
  deriving DecidableEq, Inhabited

namespace LogFilter

/-- Lets lines of a level through, and those that are more urgent. -/
def upTo (level : Level) : LogFilter := { directives := [{ limit := level.rank }] }

/-- The directive for a path: of those that cover it the one with the greatest reach, and the last
of these. -/
def governing? (f : LogFilter) (path : String) : Option Directive :=
  (f.directives.filter (·.covers path)).foldl
    (fun best d => if best.any fun b => d.reach < b.reach then best else some d) none

def admits (f : LogFilter) (l : LogLine) : Bool :=
  (f.governing? l.topic.path).any (l.level.rank ≤ ·.limit) &&
    f.pattern.all (·.occursIn l.message.toList)

/-- Adds a directive, in the place of one with the same scope if there is one. -/
def insert (ds : List Directive) (d : Directive) : List Directive :=
  if ds.any (·.scope == d.scope) then ds.map fun e => if e.scope == d.scope then d else e
  else ds ++ [d]

/-! ### Reading -/

/-- The words for limits. -/
def limits : List (String × Nat) :=
  [("off", 0), ("error", 1), ("warn", 2), ("info", 3), ("debug", 4), ("trace", 5)]

/-- The limit of a scope without a word for one. -/
def noLimit : Nat := 5

def limit? (word : List Char) : Option Nat :=
  limits.lookup (String.ofList (word.map Char.toLower))

/-- The directive that a text between commas gives. -/
def directiveOf (text : List Char) : Except FilterError Directive :=
  match text.splitOn '=' with
  | [word] =>
    match limit? word with
    | some n => .ok { limit := n }
    | none => .ok { scope := some (String.ofList word), limit := noLimit }
  | [scope, word] =>
    let word := Text.trim word
    if word = [] then .ok { scope := some (String.ofList scope), limit := noLimit }
    else
      match limit? word with
      | some n => .ok { scope := some (String.ofList scope), limit := n }
      | none => .error (.level (String.ofList word))
  | _ => .error (.directive (String.ofList text))

/-- The directives between commas, and what is wrong with others. -/
def directivesOf (text : List Char) : List Directive × List FilterError :=
  let results := (((text.splitOn ',').map Text.trim).filter (· ≠ [])).map directiveOf
  ((results.filterMap Except.toOption).foldl insert [],
    results.filterMap fun
      | .error e => some e
      | .ok _ => none)

/-- What counts if there is no directive: only errors are let through. -/
def orDefault (ds : List Directive) : List Directive :=
  if ds = [] then (upTo .error).directives else ds

/-- A filter as it is written: directives between commas, and after a slash a pattern. -/
def ofText (text : String) : LogFilter × List FilterError :=
  match text.toList.splitOn '/' with
  | [directives] =>
    let (ds, errors) := directivesOf directives
    ({ directives := orDefault ds }, errors)
  | [directives, pattern] =>
    let (ds, errors) := directivesOf directives
    match Pattern.ofText pattern with
    | .ok p => ({ directives := orDefault ds, pattern := some p }, errors)
    | .error fault =>
      ({ directives := orDefault ds }, errors ++ [.pattern (String.ofList pattern) fault])
  | _ => ({ directives := orDefault [] }, [.slashes text])

end LogFilter

end Bindery

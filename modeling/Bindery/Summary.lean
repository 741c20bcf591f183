import Bindery.Config
import Bindery.Json.Value
import Bindery.Pipeline.Basic

/-!
# Summary of a run

What a run left out, combined, made read-only and renamed, with the report of its passes; and the
page on which that is shown.
-/

namespace Bindery

structure RunSummary where
  moduleName : String
  variant : Variant
  primaryUnit : String
  synthesized : Nat
  passes : List PassReport
  /-- Kind and name of each declaration that is left out. -/
  ignored : List (Kind × String)
  bitmasks : List String
  readOnly : List String
  /-- The first and the present name of each renamed typedef. -/
  delegates : List (String × String)
  deriving DecidableEq, Inhabited

namespace RunSummary

/-- The qualified names of the live declarations that satisfy `p`. -/
def namesWhere (g : Graph) (p : Slot → Bool) : Option (List String) := do
  (← g.liveWhere? p).mapM g.qualifiedName?

def collect? (g : Graph) (r : PipelineReport) (c : Config) : Option RunSummary := do
  let live ← g.live?
  let ignored ← (live.filter (·.slot.isIgnored)).mapM fun x =>
    (g.qualifiedName? x.id).map (x.slot.kind, ·)
  let delegates := live.filterMap fun x =>
    if x.slot.kind = .alias then x.slot.initialName.map (·, x.slot.name) else none
  return {
    moduleName := c.moduleName
    variant := r.variant
    primaryUnit := c.primaryHeader
    synthesized := r.synthesized
    passes := r.passes
    ignored := ignored
    bitmasks := ← namesWhere g fun s => s.kind == .enumeration && s.flags.has .bitmask
    readOnly := ← namesWhere g fun s => s.kind == .property && s.flags.has .readOnly
    delegates := delegates }

/-! ## The page -/

def passRows : Nat → List PassReport → List String
  | _, [] => []
  | n, p :: ps =>
    ("| " ++ toString n ++ " | " ++ p.phase.label ++ " | " ++ p.name ++ " | " ++
      toString p.changes ++ " |\n") :: passRows (n + 1) ps

/-- A heading with a count, and the entries below it. -/
def pageSection (title : String) (entries : List String) : String :=
  "## " ++ title ++ " (" ++ toString entries.length ++ ")\n\n" ++
    (if entries.isEmpty then "_none_\n"
      else String.join (entries.map fun e => "- " ++ e ++ "\n")) ++
    "\n"

def code (s : String) : String := "`" ++ s ++ "`"

def markdown (s : RunSummary) : String :=
  "# " ++ s.moduleName ++ " bindings (" ++ s.variant.label ++ ")\n\n" ++
    "Primary unit " ++ code s.primaryUnit ++ ", " ++ toString s.synthesized ++
    " declarations synthesized by the toolchain build.\n\n" ++
    "## Passes\n\n" ++
    "| # | phase | pass | changes |\n|---|-------|------|---------|\n" ++
    String.join (passRows 1 s.passes) ++ "\n" ++
    pageSection "Ignored declarations" (s.ignored.map fun e => e.1.label ++ " " ++ code e.2) ++
    pageSection "Bitmask enumerations" (s.bitmasks.map code) ++
    pageSection "Read-only properties" (s.readOnly.map code) ++
    pageSection "Renamed delegates" (s.delegates.map fun e => code e.1 ++ " → " ++ code e.2)

end RunSummary

end Bindery

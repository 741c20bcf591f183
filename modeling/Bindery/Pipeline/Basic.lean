import Bindery.Pipeline.Attach
import Bindery.Pipeline.Tables
import Bindery.Pipeline.Trim
import Bindery.Variant

/-!
# Pipelines

A pass is a rule table or the trimming of item names. A `Pipeline` runs its passes of the first
phase, attaches what the toolchain made, and runs its passes of the second phase; the first failure
ends it.
-/

namespace Bindery

inductive Pass where
  | table (name : String) (phase : Phase) (rules : List Rule)
  | trim
  deriving DecidableEq, Inhabited

namespace Pass

def name : Pass → String
  | .table name _ _ => name
  | .trim => "trim-enum-item-prefixes"

def phase : Pass → Phase
  | .table _ phase _ => phase
  | .trim => .postprocess

/-- How many declarations the pass changes. -/
def run (scope : Scope) : Pass → Step Nat
  | .table _ _ rules => Step.sum (·.apply scope) rules
  | .trim => Trim.run

/-- Runs the pass, and enters it into the report unless it fails. -/
def runReported (scope : Scope) (p : Pass) : Step Unit := do
  let changes ← Step.within p.name (p.run scope)
  Step.log .pipeline .info
    ("Pass '" ++ p.name ++ "' changed " ++ toString changes ++ " declarations")
  Step.report { name := p.name, phase := p.phase, changes := changes }

end Pass

structure PipelineReport where
  variant : Variant
  passes : List PassReport := []
  /-- How many declarations of the toolchain were attached. -/
  synthesized : Nat := 0
  deriving DecidableEq, Inhabited

/-- The changes of the first pass of a name. -/
def PipelineReport.changesOf? (r : PipelineReport) (pass : String) : Option Nat :=
  (r.passes.find? (·.name == pass)).map (·.changes)

structure Pipeline where
  variant : Variant
  passes : List Pass
  deriving DecidableEq, Inhabited

namespace Pipeline

/-- The passes in their fixed order. Consolidation is first, as every later search is for a main
unit without namespaces. -/
def standard (variant : Variant) : Pipeline where
  variant := variant
  passes :=
    [.table "namespace-consolidation" .preprocess Tables.namespaceConsolidation,
      .table "value-types" .preprocess Tables.valueTypes,
      .table "ignores" .preprocess Tables.earlyIgnores,
      .table "post-build-ignores" .postprocess Tables.lateIgnores,
      .table "delegates" .postprocess Tables.delegates,
      .table "enumerations" .postprocess Tables.enumerations,
      .table "property-mutability" .postprocess Tables.propertyMutability,
      .trim]

def passNames (p : Pipeline) : List String := p.passes.map Pass.name

def runPhase (p : Pipeline) (phase : Phase) (scope : Scope) : Step Unit :=
  (p.passes.filter (·.phase == phase)).forM (Pass.runReported scope)

/-- Runs the pipeline for the main unit of file `header`; how many declarations were attached. -/
def transform (p : Pipeline) (header : String) : Step Nat := do
  let scope ← Step.look (Scope.primary · header)
  p.runPhase .preprocess scope
  let synthesized ← Attach.run
  p.runPhase .postprocess scope
  return synthesized

end Pipeline

end Bindery

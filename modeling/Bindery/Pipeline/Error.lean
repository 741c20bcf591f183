import Bindery.Pipeline.Action

/-!
# Failures of passes
-/

namespace Bindery

inductive PipelineError where
  | noMatch (target : String)
  | ambiguous (target : String) (count : Nat)
  | missingUnit (file : String)
  | inapplicable (action : Action) (kind : Kind) (name : String)
  /-- A failure inside the named pass. -/
  | pass (name : String) (cause : PipelineError)
  deriving DecidableEq, Inhabited

namespace PipelineError

def message : PipelineError → String
  | .noMatch target => "no declaration matches " ++ target
  | .ambiguous target count =>
    toString count ++ " declarations match " ++ target ++ ", expected exactly one"
  | .missingUnit file => "translation unit '" ++ file ++ "' not found"
  | .inapplicable action kind name =>
    "cannot " ++ action.verb ++ " " ++ kind.label ++ " '" ++ name ++ "'"
  | .pass name cause => "pass '" ++ name ++ "' failed: " ++ cause.message

/-- The messages of what caused the error, the nearest first. -/
def causes : PipelineError → List String
  | .pass _ cause => cause.message :: cause.causes
  | _ => []

/-- The failure that no pass stands around. -/
def root : PipelineError → PipelineError
  | .pass _ cause => cause.root
  | e => e

end PipelineError

end Bindery

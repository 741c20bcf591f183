import Bindery.Dump.Error
import Bindery.Pipeline.Error

/-!
# Failures of commands

A failure has a cause, and a message for each thing that was attempted when it happened.
-/

namespace Bindery

inductive Cause where
  | load (e : Dump.LoadError)
  | pipeline (e : PipelineError)
  | file (e : FileError)
  /-- A path that is no text cannot be stored. -/
  | unstorable
  deriving Inhabited

/-- The messages of a cause, from the widest to the nearest. -/
def Cause.messages : Cause → List String
  | .load e => e.message :: e.causes
  | .pipeline e => e.message :: e.causes
  | .file e => [e.message]
  | .unstorable => ["path contains invalid UTF-8 characters"]

structure Failure where
  /-- What was attempted, the widest first. -/
  contexts : List String := []
  cause : Cause
  deriving Inhabited

namespace Failure

def messages (f : Failure) : List String := f.contexts ++ f.cause.messages

/-- A text with every line but the first after `margin`. -/
def hang (margin s : String) : String :=
  ("\n" ++ margin).intercalate ((s.toList.splitOn '\n').map String.ofList)

/-- The causes of a failure with their numbers. -/
def numbered : Nat → List String → List String
  | _, [] => []
  | n, m :: ms =>
    let digits := toString n
    (String.ofList (List.replicate (5 - digits.length) ' ') ++ digits ++ ": " ++
      hang "       " m) :: numbered (n + 1) ms

/-- What a program says when it ends by the failure. -/
def report (f : Failure) : String :=
  match f.messages with
  | [] => "Error: \n"
  | [m] => "Error: " ++ m ++ "\n"
  | [m, cause] => "Error: " ++ m ++ "\n\nCaused by:\n    " ++ hang "    " cause ++ "\n"
  | m :: causes =>
    "Error: " ++ m ++ "\n\nCaused by:\n" ++ "\n".intercalate (numbered 0 causes) ++ "\n"

end Failure

end Bindery

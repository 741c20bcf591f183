import Bindery.Log
import Bindery.Pipeline.Selector

/-!
# Steps of a run

A `Step` works on a graph and writes a log. When it fails, what it has done so far stays; it has no
result at all if it meets a number without a slot.
-/

namespace Bindery

inductive Phase where
  /-- Before the toolchain's own declarations are attached. -/
  | preprocess
  | postprocess
  deriving DecidableEq, Inhabited

def Phase.label : Phase → String
  | .preprocess => "preprocess"
  | .postprocess => "postprocess"

structure PassReport where
  name : String
  phase : Phase
  changes : Nat
  deriving DecidableEq, Inhabited

/-- What a run has come to. -/
structure Work where
  graph : Graph
  log : List LogLine := []
  /-- One entry for each pass that is done. -/
  passes : List PassReport := []
  deriving Inhabited

def Step (α : Type) : Type := Work → Option (Except PipelineError α × Work)

namespace Step

variable {α β : Type}

protected def pure (x : α) : Step α := fun w => some (.ok x, w)

protected def bind (p : Step α) (f : α → Step β) : Step β := fun w =>
  match p w with
  | none => none
  | some (.error e, w) => some (.error e, w)
  | some (.ok x, w) => f x w

instance : Monad Step where
  pure := Step.pure
  bind := Step.bind

instance : LawfulMonad Step := LawfulMonad.mk' Step
  (fun p => funext fun w => by
    show Step.bind p Step.pure w = p w
    unfold Step.bind
    rcases p w with _ | ⟨_ | _, _⟩ <;> rfl)
  (fun _ _ => rfl)
  (fun p f q => funext fun w => by
    show Step.bind (Step.bind p f) q w = Step.bind p (fun x => Step.bind (f x) q) w
    unfold Step.bind
    rcases p w with _ | ⟨_ | _, _⟩ <;> rfl)

def fail (e : PipelineError) : Step α := fun w => some (.error e, w)

def graph : Step Graph := fun w => some (.ok w.graph, w)

def setGraph (g : Graph) : Step Unit := fun w => some (.ok (), { w with graph := g })

/-- A search in the graph as it is. -/
def look (f : Graph → Lookup α) : Step α := fun w => (f w.graph).run.map fun r => (r, w)

/-- A value read off the graph as it is. -/
def read (f : Graph → Option α) : Step α := fun w => (f w.graph).map fun a => (.ok a, w)

/-- A change of the graph. -/
def change (f : Graph → Option Graph) : Step Unit := fun w =>
  (f w.graph).map fun g => (.ok (), { w with graph := g })

/-- A change of the graph that has a result. -/
def changeWith (f : Graph → Option (Graph × α)) : Step α := fun w =>
  (f w.graph).map fun p => (.ok p.2, { w with graph := p.1 })

def log (topic : Topic) (level : Level) (message : String) : Step Unit := fun w =>
  some (.ok (), { w with log := w.log ++ [⟨topic, level, message⟩] })

def report (p : PassReport) : Step Unit := fun w =>
  some (.ok (), { w with passes := w.passes ++ [p] })

/-- Names the pass in which a failure happened. -/
def within (pass : String) (p : Step α) : Step α := fun w =>
  (p w).map fun
    | (.error e, w) => (.error (.pass pass e), w)
    | (.ok x, w) => (.ok x, w)

/-- The sum of the results of a step for each element. -/
def sum (f : β → Step Nat) : List β → Step Nat
  | [] => pure 0
  | x :: xs => do
    let m ← f x
    let n ← sum f xs
    return m + n

end Step

end Bindery

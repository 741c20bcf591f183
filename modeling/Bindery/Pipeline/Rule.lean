import Bindery.Pipeline.Step

/-!
# Rules

A `Rule` finds its targets by a selector and applies an action to each of them, which it counts and
logs where something changed.
-/

namespace Bindery

structure Rule where
  selector : Selector
  action : Action
  /-- Why the rule is there, if that is said. -/
  reason : String := ""
  deriving DecidableEq, Inhabited

namespace Rule

/-- Moves what `space` declares onto its unit, and drops `space`. -/
def hoist (space : DeclId) : Step Unit := do
  match ← Step.read (·.unitOf? space) with
  | none => Step.fail (.missingUnit (← Step.read (·.qualifiedName? space)))
  | some unit =>
    let unitName := (← Step.read (·.get? unit)).name
    let children := (← Step.read (·.get? space)).children
    children.forM fun child => do
      let name ← Step.read (·.qualifiedName? child)
      Step.log .rules .debug ("Set declaration " ++ name ++ " namespace to " ++ unitName)
      Step.change (·.reparent? child unit)
    Step.change (·.remove? space)

/-- Does what the action says to `id`, and tells whether that changed anything. -/
def perform (action : Action) (id : DeclId) : Step Bool :=
  match action with
  | .rename name => Step.changeWith (·.rename? id name)
  | .hoist => do
    hoist id
    return true
  | .ignore => Step.changeWith (·.mark? id .ignored)
  | .markValueType => Step.changeWith (·.mark? id .valueType)
  | .markBitmask => Step.changeWith (·.mark? id .bitmask)
  | .markReadOnly => Step.changeWith (·.mark? id .readOnly)

/-- What the log says of a change. -/
def changeMessage (r : Rule) (kind : Kind) (name : String) : String :=
  match r.action with
  | .rename newName => "Renamed " ++ kind.label ++ " " ++ name ++ " to " ++ newName
  | .hoist => "Merged namespace " ++ name ++ " into its translation unit"
  | action =>
    "Applied '" ++ action.verb ++ "' to " ++ kind.label ++ " " ++ name ++
      if r.reason.isEmpty then "" else " (" ++ r.reason ++ ")"

def applyTo (r : Rule) (id : DeclId) : Step Bool := do
  let kind := (← Step.read (·.get? id)).kind
  let name ← Step.read (·.qualifiedName? id)
  if r.action.appliesTo kind then
    let changed ← perform r.action id
    if changed then Step.log .rules .info (r.changeMessage kind name)
    else
      Step.log .rules .debug
        ("'" ++ r.action.verb ++ "' already applied to " ++ kind.label ++ " " ++ name)
    return changed
  else Step.fail (.inapplicable r.action kind name)

/-- How many declarations the rule changes. -/
def apply (r : Rule) (scope : Scope) : Step Nat := do
  let targets ← Step.look fun g => r.selector.resolve g scope
  Step.sum (fun id => do return if ← r.applyTo id then 1 else 0) targets

end Rule

end Bindery

import Bindery.Pipeline.Step

/-!
# Attaching what the toolchain made

Every pending declaration becomes the last child of its unit, or of the class that owns it below
that unit. The list of pending declarations is given up first; the first one without a place ends
the attachment.
-/

namespace Bindery

namespace Graph

/-- Where a pending declaration goes. -/
def destination (g : Graph) (p : Pending) : Lookup DeclId := do
  let unit ← g.resolveUnit p.unit
  match p.owner with
  | none => return unit
  | some owner =>
    let below ← (g.descendants? unit : Option (List Found))
    let candidates := below.filter fun x =>
      x.slot.kind == .record && x.slot.name == owner && x.slot.isComplete
    findSingle (candidates.map Found.id) ("class '" ++ owner ++ "' in '" ++ p.unit ++ "'")

end Graph

namespace Attach

def attachOne (p : Pending) : Step Unit := do
  let target ← Step.look (·.destination p)
  Step.change (·.reparent? p.decl target)

/-- How many declarations were pending, all of which are attached now. -/
def run : Step Nat := do
  let g ← Step.graph
  Step.setGraph { g with pending := [] }
  g.pending.forM attachOne
  if g.pending.length > 0 then
    Step.log .toolchain .info
      ("Attached " ++ toString g.pending.length ++ " synthesized declarations")
  return g.pending.length

end Attach

end Bindery

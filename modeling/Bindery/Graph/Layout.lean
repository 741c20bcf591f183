import Bindery.Graph.Walk

/-!
# Laying out trees in a graph

`Tree.slots` numbers the nodes of a tree from a given number on, each node before those below it;
`Graph.plant` puts them at the end of a graph.
-/

namespace Bindery

namespace Tree

/-- The numbers of the roots of trees that are laid out one after the other. -/
def rootIds {α : Type} (start : DeclId) : List (Tree α) → List DeclId
  | [] => []
  | t :: ts => start :: rootIds (start + t.size) ts

mutual

/-- The slots of a tree whose root gets the number `start`. -/
def slots (parent : Option DeclId) (start : DeclId) : Tree Declaration → List Slot
  | .node d ts =>
    { d with id := start, parent := parent, children := rootIds (start + 1) ts } ::
      slotsList start (start + 1) ts

def slotsList (parent start : DeclId) : List (Tree Declaration) → List Slot
  | [] => []
  | t :: ts => slots (some parent) start t ++ slotsList parent (start + t.size) ts

end

mutual

theorem length_slots (parent : Option DeclId) (start : DeclId) :
    ∀ t : Tree Declaration, (slots parent start t).length = t.size
  | .node _ ts => by simp [slots, size, length_slotsList start (start + 1) ts]

theorem length_slotsList (parent start : DeclId) :
    ∀ ts : List (Tree Declaration), (slotsList parent start ts).length = sizeList ts
  | [] => rfl
  | t :: ts => by
    simp [slotsList, sizeList, length_slots (some parent) start t,
      length_slotsList parent (start + t.size) ts]

end

end Tree

namespace Graph

/-- The graph with a tree at its end, whose root has no parent and gets the number `g.size`. -/
def plant (g : Graph) (t : Tree Declaration) : Graph :=
  { g with slots := g.slots ++ (t.slots none g.size).toArray }

theorem size_plant (g : Graph) (t : Tree Declaration) : (g.plant t).size = g.size + t.size := by
  simp [plant, size, Tree.length_slots]

end Graph

end Bindery

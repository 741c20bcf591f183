import Bindery.Graph.Walk

/-!
# Listing of a graph

One line for each live declaration, the units at the margin and every other declaration behind the
branches that lead to it from its unit.
-/

namespace Bindery

namespace Declaration

/-- The flags that a listing shows, with the words for them. -/
def markers : List (Flags × String) :=
  [(.ignored, "ignored"), (.valueType, "value"), (.bitmask, "flags"), (.readOnly, "read-only"),
    (.incomplete, "forward"), (.synthesized, "synthesized")]

/-- Kind, name, type, value and markers of a declaration. -/
def line (d : Declaration) : String :=
  let marked := (markers.filter fun m => d.flags.has m.1).map Prod.snd
  d.kind.label ++ " " ++ d.name ++
    (d.type.elim "" fun t => ": " ++ t.spelling) ++
    (d.value.elim "" fun v => " = " ++ v) ++
    (if marked.isEmpty then "" else " [" ++ ", ".intercalate marked ++ "]")

end Declaration

namespace Tree

def connector (isLast : Bool) : String := if isLast then "└── " else "├── "

def extension (isLast : Bool) : String := if isLast then "    " else "│   "

mutual

/-- The lines of a tree below a root, behind the branches `stem`. -/
def branchLines (stem : String) (isLast : Bool) : Tree Declaration → List String
  | .node d ts =>
    (stem ++ connector isLast ++ d.line) :: childLines (stem ++ extension isLast) ts

def childLines (stem : String) : List (Tree Declaration) → List String
  | [] => []
  | t :: ts => branchLines stem ts.isEmpty t ++ childLines stem ts

end

/-- The lines of a tree whose root stands at the margin. -/
def lines : Tree Declaration → List String
  | .node d ts => d.line :: childLines "" ts

end Tree

namespace Graph

/-- The declarations below the units, without their places in the graph. -/
def declarationForest? (g : Graph) : Option (List (Tree Declaration)) :=
  g.forest?.map (Tree.mapList fun x => x.slot.toDeclaration)

def listing? (g : Graph) : Option String :=
  g.declarationForest?.map fun ts => String.join ((ts.flatMap Tree.lines).map (· ++ "\n"))

end Graph

end Bindery

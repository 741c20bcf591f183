import Bindery.Dump.Error
import Bindery.Dump.Grammar
import Bindery.Graph.Layout

/-!
# Loading a dump

Every entry becomes a tree of declarations. The trees of a unit block stand below a unit; those of a
generated block are laid out on their own and wait until they are attached.
-/

namespace Bindery.Dump

namespace Member

def tree : Member → Tree Declaration
  | .field name type => .node { kind := .property, name := name, type := some type } []
  | .method name parameters returns =>
    .node { kind := .method, name := name, parameters := parameters, type := some returns } []

end Member

namespace EnumItem

def tree (i : EnumItem) : Tree Declaration :=
  .node { kind := .item, name := i.name, value := i.value } []

end EnumItem

namespace Entry

mutual

def tree : Entry → Tree Declaration
  | .namespace name entries => .node { kind := .namespace, name := name } (trees entries)
  | .record name members =>
    .node { kind := .record, name := name, flags := if members.isSome then .none else .incomplete }
      ((members.getD []).map Member.tree)
  | .enumeration name isBitmask items =>
    .node { kind := .enumeration, name := name, flags := if isBitmask then .bitmask else .none }
      (items.map EnumItem.tree)
  | .alias name target => .node { kind := .alias, name := name, type := some target } []
  | .function name parameters returns =>
    .node { kind := .function, name := name, parameters := parameters, type := some returns } []

def trees : List Entry → List (Tree Declaration)
  | [] => []
  | e :: es => e.tree :: trees es

end

end Entry

/-- A tree all of whose declarations were made by the toolchain. -/
def synthesize (t : Tree Declaration) : Tree Declaration :=
  t.map fun d => { d with flags := d.flags ∪ .synthesized }

/-- The trees of a product, with the class to which each of them goes. -/
def Product.trees : Product → List (Option String × Tree Declaration)
  | .extension owner members => members.map fun m => (some owner, synthesize m.tree)
  | .entry e => [(none, synthesize e.tree)]

end Bindery.Dump

namespace Bindery.Graph

def hasUnit (g : Graph) (file : String) : Bool :=
  g.units.any fun u => (g.get? u).any (·.name == file)

/-- The graph with a new unit and what it declares. -/
def addUnitTree (g : Graph) (file : String) (ts : List (Tree Declaration)) : Graph :=
  { g.plant (.node { kind := .unit, name := file } ts) with units := g.units ++ [g.size] }

/-- The graph with a tree that waits for the unit `file`. -/
def addPendingTree (g : Graph) (file : String) (p : Option String × Tree Declaration) : Graph :=
  (g.plant p.2).addPending { unit := file, owner := p.1, decl := g.size }

open Dump in
def addBlock (g : Graph) : Block → Except LoadError Graph
  | .unit file entries =>
    if g.hasUnit file then .error (.repeatedUnit file)
    else .ok (g.addUnitTree file (Entry.trees entries))
  | .generated file products =>
    .ok ((products.flatMap Product.trees).foldl (addPendingTree · file) g)

/-- The graph of a dump; no two unit blocks may be of one file. -/
def ofDump (d : Dump) : Except Dump.LoadError Graph := d.foldlM addBlock {}

/-- The graph of a text that messages call `origin`. -/
def ofText (origin text : String) : Except Dump.LoadError Graph :=
  match Dump.ofText text.toList with
  | .ok d => ofDump d
  | .error attempts => .error (.fault origin { source := text.toList, attempts := attempts })

end Bindery.Graph

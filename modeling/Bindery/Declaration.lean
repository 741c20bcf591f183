import Bindery.Flags
import Bindery.TypeRef

/-!
# Declarations

What a declaration says of itself, apart from its place in a graph: `Declaration`. `mark` and
`rename` are the two changes that a pass makes to one.
-/

namespace Bindery

/-- A `unit` is what one header declares; a `record` is a class or a struct; an `alias` is a
typedef. -/
inductive Kind where
  | unit | namespace | record | enumeration | item | function | method | property | alias
  deriving DecidableEq, Inhabited

namespace Kind

/-- The word for the kind in listings and messages. -/
def label : Kind → String
  | .unit => "unit"
  | .namespace => "namespace"
  | .record => "class"
  | .enumeration => "enum"
  | .item => "item"
  | .function => "function"
  | .method => "method"
  | .property => "property"
  | .alias => "typedef"

def all : List Kind :=
  [.unit, .namespace, .record, .enumeration, .item, .function, .method, .property, .alias]

/-- The name of the kind in a stored graph. -/
def tag : Kind → String
  | .unit => "TranslationUnit"
  | .namespace => "Namespace"
  | .record => "Class"
  | .enumeration => "Enumeration"
  | .item => "EnumItem"
  | .function => "Function"
  | .method => "Method"
  | .property => "Property"
  | .alias => "Typedef"

def ofTag? (s : String) : Option Kind := all.find? (·.tag == s)

theorem ofTag?_tag (k : Kind) : ofTag? k.tag = some k := by
  cases k <;> decide

end Kind

structure Parameter where
  name : String
  type : TypeRef
  deriving Inhabited

structure Declaration where
  kind : Kind
  name : String
  /-- The type of a field, the result of a function, the target of a typedef. -/
  type : Option TypeRef := none
  parameters : List Parameter := []
  /-- The initializer of an enum item, as written. -/
  value : Option String := none
  /-- The name before any change, once there was one. -/
  initialName : Option String := none
  flags : Flags := .none
  deriving Inhabited

namespace Declaration

def isIgnored (d : Declaration) : Bool := d.flags.has .ignored

def isRemoved (d : Declaration) : Bool := d.flags.has .removed

def isComplete (d : Declaration) : Bool := !d.flags.has .incomplete

/-- The declaration with `f` set, unless it is set already. -/
def mark? (d : Declaration) (f : Flags) : Option Declaration :=
  if d.flags.has f then none else some { d with flags := d.flags ∪ f }

/-- The declaration under a new name, unless it has that name; its first name is kept. -/
def rename? (d : Declaration) (name : String) : Option Declaration :=
  if d.name = name then none
  else some { d with
    name := name
    initialName := some (d.initialName.getD d.name)
    flags := d.flags ∪ .renamed }

theorem mark?_eq_none {d : Declaration} {f : Flags} : d.mark? f = none ↔ d.flags.has f := by
  simp [mark?]

theorem rename?_eq_none {d : Declaration} {name : String} :
    d.rename? name = none ↔ d.name = name := by
  simp [rename?]

end Declaration

end Bindery

import Bindery.Declaration

/-!
# Graphs of declarations

A `Graph` keeps its declarations in numbered slots; a slot names its parent and its children by
number. `units` are the roots of what is generated, `pending` waits to be attached to one of them.
A slot is never given up. An operation has no result if it meets a number that has no slot.
-/

namespace Bindery

/-- The number of a slot. -/
abbrev DeclId := Nat

structure Slot extends Declaration where
  id : DeclId
  parent : Option DeclId := none
  children : List DeclId := []
  deriving Inhabited

/-- A declaration that goes to the unit of the given file, or to the class `owner` below it. -/
structure Pending where
  unit : String
  owner : Option String
  decl : DeclId
  deriving DecidableEq, Inhabited

structure Graph where
  slots : Array Slot := #[]
  units : List DeclId := []
  pending : List Pending := []
  deriving Inhabited

namespace Graph

def size (g : Graph) : Nat := g.slots.size

def get? (g : Graph) (id : DeclId) : Option Slot := g.slots[id]?

def modify? (g : Graph) (id : DeclId) (f : Slot → Slot) : Option Graph :=
  if id < g.size then some { g with slots := g.slots.modify id f } else none

/-- A new slot at the end, not yet known to its parent. -/
def push (g : Graph) (d : Declaration) (parent : Option DeclId) : Graph :=
  { g with slots := g.slots.push { d with id := g.size, parent := parent } }

def addUnit (g : Graph) (file : String) : Graph × DeclId :=
  let h := g.push { kind := .unit, name := file } none
  ({ h with units := h.units ++ [g.size] }, g.size)

/-- A declaration without a parent. -/
def addDetached (g : Graph) (kind : Kind) (name : String) : Graph × DeclId :=
  (g.push { kind := kind, name := name } none, g.size)

/-- A declaration that becomes the last child of `parent`. -/
def addChild? (g : Graph) (parent : DeclId) (kind : Kind) (name : String) :
    Option (Graph × DeclId) := do
  let h ← (g.push { kind := kind, name := name } (some parent)).modify? parent fun s =>
    { s with children := s.children ++ [g.size] }
  return (h, g.size)

def addPending (g : Graph) (p : Pending) : Graph := { g with pending := g.pending ++ [p] }

/-- `id` without a parent, and out of the children of the one it had. -/
def detach? (g : Graph) (id : DeclId) : Option Graph := do
  match (← g.get? id).parent with
  | none => return g
  | some p =>
    let g ← g.modify? id fun s => { s with parent := none }
    g.modify? p fun s => { s with children := s.children.filter (· != id) }

/-- `id` as the last child of `target`. -/
def reparent? (g : Graph) (id target : DeclId) : Option Graph := do
  let g ← g.detach? id
  let g ← g.modify? id fun s => { s with parent := some target }
  g.modify? target fun s => { s with children := s.children ++ [id] }

/-- `id` cut off: no parent, no unit, flagged as removed. -/
def remove? (g : Graph) (id : DeclId) : Option Graph := do
  let g ← g.detach? id
  let g := { g with units := g.units.filter (· != id) }
  g.modify? id fun s => { s with flags := s.flags ∪ .removed }

/-- Sets `f` on `id`, and tells whether that changed anything. -/
def mark? (g : Graph) (id : DeclId) (f : Flags) : Option (Graph × Bool) := do
  match (← g.get? id).toDeclaration.mark? f with
  | none => return (g, false)
  | some d => return (← g.modify? id fun s => { s with toDeclaration := d }, true)

/-- Gives `id` another name, and tells whether that changed anything. -/
def rename? (g : Graph) (id : DeclId) (name : String) : Option (Graph × Bool) := do
  match (← g.get? id).toDeclaration.rename? name with
  | none => return (g, false)
  | some d => return (← g.modify? id fun s => { s with toDeclaration := d }, true)

/-! ## Slots after a change -/

section
variable {g h : Graph} {id : DeclId} {f : Slot → Slot}

@[simp] theorem size_push (g : Graph) (d : Declaration) (parent : Option DeclId) :
    (g.push d parent).size = g.size + 1 := by
  simp [push, size]

theorem get?_push (g : Graph) (d : Declaration) (parent : Option DeclId) (j : DeclId) :
    (g.push d parent).get? j =
      if j = g.size then some { d with id := g.size, parent := parent } else g.get? j := by
  unfold get? push size
  exact Array.getElem?_push

theorem modify?_eq_some (h : id < g.size) :
    g.modify? id f = some { g with slots := g.slots.modify id f } := if_pos h

theorem eq_of_modify? (hm : g.modify? id f = some h) :
    id < g.size ∧ h = { g with slots := g.slots.modify id f } := by
  simp only [modify?, Option.ite_none_right_eq_some, Option.some.injEq] at hm
  exact ⟨hm.1, hm.2.symm⟩

theorem size_of_modify? (hm : g.modify? id f = some h) : h.size = g.size := by
  obtain ⟨-, rfl⟩ := eq_of_modify? hm
  simp [size]

theorem units_of_modify? (hm : g.modify? id f = some h) : h.units = g.units := by
  obtain ⟨-, rfl⟩ := eq_of_modify? hm
  rfl

theorem pending_of_modify? (hm : g.modify? id f = some h) : h.pending = g.pending := by
  obtain ⟨-, rfl⟩ := eq_of_modify? hm
  rfl

/-- A change of one slot leaves all others as they are. -/
theorem get?_of_modify? (hm : g.modify? id f = some h) (j : DeclId) :
    h.get? j = if id = j then (g.get? j).map f else g.get? j := by
  obtain ⟨-, rfl⟩ := eq_of_modify? hm
  simp [get?, Array.getElem?_modify]

end

end Graph

end Bindery

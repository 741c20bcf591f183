import Bindery.Pipeline.Step

/-!
# Trimming names of enum items

The name of an enumeration is dropped from the front of its items' names, unless what is left would
be no name or another item's name.
-/

namespace Bindery.Trim

/-- What is dropped: the enumeration's name, with an underscore at its end. -/
def stem (enumeration : String) : List Char :=
  let s := enumeration.toList
  if s.getLast? = some '_' then s else s ++ ['_']

/-- What is left of an item's name, if that can be a name. -/
def rest? (stem : List Char) (name : String) : Option String :=
  if stem.isPrefixOf name.toList then
    match name.toList.drop stem.length with
    | [] => none
    | c :: s => if c.isDigit then none else some (String.ofList (c :: s))
  else none

/-- Trims one item; `taken` are the names that the items have, or had. -/
def trimItem (enumeration : String) (taken : List String) (id : DeclId) :
    Step (List String × Nat) := do
  let d := (← Step.read (·.get? id)).toDeclaration
  match if d.isIgnored then none else rest? (stem enumeration) d.name with
  | none => return (taken, 0)
  | some rest =>
    if taken.contains rest then
      Step.log .passes .warn
        ("Kept " ++ enumeration ++ "::" ++ d.name ++ ": '" ++ rest ++ "' is already taken")
      return (taken, 0)
    else
      discard (Step.changeWith (·.rename? id rest))
      return (rest :: taken, 1)

def trimItems (enumeration : String) (taken : List String) : List DeclId → Step Nat
  | [] => return 0
  | id :: ids => do
    let (taken, m) ← trimItem enumeration taken id
    let n ← trimItems enumeration taken ids
    return m + n

def trimEnumeration (id : DeclId) : Step Nat := do
  let d := (← Step.read (·.get? id)).toDeclaration
  if d.isIgnored then return 0
  else
    let items := (← Step.read (·.children? id)).filter (·.slot.kind == .item)
    trimItems d.name (items.map (·.slot.name)) (items.map Found.id)

/-- How many items of live enumerations get another name. -/
def run : Step Nat := do
  let changes ← Step.sum trimEnumeration (← Step.read (·.liveOfKind? .enumeration))
  if changes > 0 then
    Step.log .passes .info ("Trimmed enumeration prefixes from " ++ toString changes ++ " items")
  return changes

end Bindery.Trim

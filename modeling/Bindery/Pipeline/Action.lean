import Bindery.Declaration

/-!
# Actions of rules
-/

namespace Bindery

inductive Action where
  | ignore | markValueType | markBitmask | markReadOnly
  | rename (name : String)
  /-- Move what a namespace declares onto its unit, and drop the namespace. -/
  | hoist
  deriving DecidableEq, Inhabited

namespace Action

def verb : Action → String
  | .ignore => "ignore"
  | .markValueType => "mark as value type"
  | .markBitmask => "mark as flags"
  | .markReadOnly => "mark as read-only"
  | .rename _ => "rename"
  | .hoist => "hoist"

/-- The one kind of declaration to which the action applies, if there is just one. -/
def requiredKind? : Action → Option Kind
  | .markValueType => some .record
  | .markBitmask => some .enumeration
  | .markReadOnly => some .property
  | .hoist => some .namespace
  | .ignore | .rename _ => none

def appliesTo (a : Action) (k : Kind) : Bool := a.requiredKind?.all (· == k)

/-- The flag that the action sets, if that is all it does. -/
def flag? : Action → Option Flags
  | .ignore => some .ignored
  | .markValueType => some .valueType
  | .markBitmask => some .bitmask
  | .markReadOnly => some .readOnly
  | .rename _ | .hoist => none

end Action

end Bindery

/-!
# Stored values

The values of a stored graph. A number is kept apart by whether it is a natural number of a machine
word. `invalid` is a value whose text is in form but stands for nothing: a string or a field name
with half of a surrogate pair, a number too large, a list or object inside too many others. Such a
value may be skipped, not used.
-/

namespace Bindery

inductive Json where
  | null
  | bool (b : Bool)
  | natural (n : Nat)
  | fraction
  | invalid
  | string (s : String)
  | array (elements : List Json)
  | object (fields : List (String × Json))
  deriving Inhabited

namespace Json

mutual

/-- How many arrays and objects stand inside one another. -/
def depth : Json → Nat
  | .array xs => depthList xs + 1
  | .object fs => depthFields fs + 1
  | _ => 0

def depthList : List Json → Nat
  | [] => 0
  | x :: xs => max (depth x) (depthList xs)

def depthFields : List (String × Json) → Nat
  | [] => 0
  | (_, x) :: fs => max (depth x) (depthFields fs)

end

mutual

/-- Nothing inside the value is `invalid`. -/
def isSound : Json → Bool
  | .invalid => false
  | .array xs => isSoundList xs
  | .object fs => isSoundFields fs
  | _ => true

def isSoundList : List Json → Bool
  | [] => true
  | x :: xs => isSound x && isSoundList xs

def isSoundFields : List (String × Json) → Bool
  | [] => true
  | (_, x) :: fs => isSound x && isSoundFields fs

end

end Json

end Bindery

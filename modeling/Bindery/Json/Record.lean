import Bindery.Json.Value

/-!
# Records in stored values

A record is stored as an object, whose fields may come in any order and among others, or as a list
of its values in a fixed order. `record?` finds the value of each field in either form; `required`,
`nullable`, `omissible` and `defaulted` read one of them.
-/

namespace Bindery.Json

/-- What a stored record says of one of its fields. -/
inductive Field where
  | given (x : Json)
  /-- An object without the field. -/
  | missing
  /-- A list that ends before the field. -/
  | cut
  deriving Inhabited

/-- The value of a field of an object, which may have it at most once. -/
def field? (fs : List (String × Json)) (name : String) : Option Field :=
  match fs.filter fun f => f.1 == name with
  | [] => some .missing
  | [f] => some (.given f.2)
  | _ => none

/-- The fields of a list of values; none may be left over. -/
def positional? : List String → List Json → Option (List Field)
  | [], [] => some []
  | [], _ :: _ => none
  | _ :: ns, [] => (positional? ns []).map (.cut :: ·)
  | _ :: ns, x :: xs => (positional? ns xs).map (.given x :: ·)

def record? (names : List String) : Json → Option (List Field)
  | .object fs => names.mapM (field? fs)
  | .array xs => positional? names xs
  | _ => none

namespace Field

variable {α : Type}

def required (read : Json → Option α) : Field → Option α
  | .given x => read x
  | _ => none

/-- A field that may be null, and may be missing from an object. -/
def nullable (read : Json → Option α) : Field → Option (Option α)
  | .given .null => some none
  | .given x => (read x).map some
  | .missing => some none
  | .cut => none

/-- A field that may be null or absent. -/
def omissible (read : Json → Option α) : Field → Option (Option α)
  | .given .null => some none
  | .given x => (read x).map some
  | _ => some none

/-- A field that may be absent, but not null. -/
def defaulted (read : Json → Option α) (value : α) : Field → Option α
  | .given x => read x
  | _ => some value

end Field

def text? : Json → Option String
  | .string s => some s
  | _ => none

def natural? : Json → Option Nat
  | .natural n => some n
  | _ => none

def listOf? {α : Type} (read : Json → Option α) : Json → Option (List α)
  | .array xs => xs.mapM read
  | _ => none

def ofOption {α : Type} (write : α → Json) : Option α → Json
  | none => .null
  | some a => write a

end Bindery.Json

import Bindery.Graph.Basic
import Bindery.Json.Record

/-!
# Stored graphs

`Graph.toJson` is the form in which a graph is handed on; `Graph.ofJson?` reads it back. Lists that
are empty and texts that are absent are left out where the reader supplies them.
-/

namespace Bindery

open Json (Field)

namespace TypeRef

mutual

def toJson : TypeRef → Json
  | .named name => .object [("kind", .string "named"), ("name", .string name)]
  | .pointer t => .object [("kind", .string "pointer"), ("pointee", t.toJson)]
  | .array t size =>
    .object [("kind", .string "array"), ("element", t.toJson), ("size", Json.ofOption .string size)]
  | .specialization template args =>
    .object [("kind", .string "template_specialization"), ("template", .string template),
      ("arguments", .array (toJsonList args))]
  | .function returns params =>
    .object [("kind", .string "function"), ("returns", returns.toJson),
      ("parameters", .array (toJsonList params))]

def toJsonList : List TypeRef → List Json
  | [] => []
  | t :: ts => t.toJson :: toJsonList ts

end

/-- The forms of a type, in the order in which a number may stand for their names. -/
inductive Form where
  | named | pointer | array | specialization | function
  deriving DecidableEq

namespace Form

def all : List (String × Form) :=
  [("named", .named), ("pointer", .pointer), ("array", .array),
    ("template_specialization", .specialization), ("function", .function)]

/-- A form by its name or, inside another type, by its number. -/
def ofJson? (inner : Bool) : Json → Option Form
  | .string s => all.lookup s
  | .natural n => if inner then (all.map Prod.snd)[n]? else none
  | _ => none

end Form

/-- The form of a stored type, and the record of its other fields. -/
def split? (inner : Bool) : Json → Option (Form × Json)
  | .object fs => do
    let .given kind ← Json.field? fs "kind" | none
    return (← Form.ofJson? inner kind, .object (fs.filter fun f => f.1 != "kind"))
  | .array (kind :: xs) => do return (← Form.ofJson? inner kind, .array xs)
  | _ => none

/-- Reads a type that is less than `fuel` deep. -/
def ofJsonWithin? : Nat → Bool → Json → Option TypeRef
  | 0, _, _ => none
  | fuel + 1, inner, x => do
    let (form, x) ← split? inner x
    let type? := ofJsonWithin? fuel true
    match form with
    | .named =>
      let [name] ← Json.record? ["name"] x | none
      return .named (← name.required Json.text?)
    | .pointer =>
      let [pointee] ← Json.record? ["pointee"] x | none
      return .pointer (← pointee.required type?)
    | .array =>
      let [element, size] ← Json.record? ["element", "size"] x | none
      return .array (← element.required type?) (← size.nullable Json.text?)
    | .specialization =>
      let [template, arguments] ← Json.record? ["template", "arguments"] x | none
      return .specialization (← template.required Json.text?)
        (← arguments.required (Json.listOf? type?))
    | .function =>
      let [returns, parameters] ← Json.record? ["returns", "parameters"] x | none
      return .function (← returns.required type?) (← parameters.required (Json.listOf? type?))

/-- Reads a type, all of whose parts must mean something, also those that are not used. -/
def ofJson? (x : Json) : Option TypeRef :=
  if x.isSound then ofJsonWithin? (x.depth + 1) false x else none

end TypeRef

namespace Kind

/-- A kind by its name, alone or as the one field of an object with the value null. -/
def ofJson? : Json → Option Kind
  | .string s => ofTag? s
  | .object [(s, .null)] => ofTag? s
  | _ => none

end Kind

namespace Parameter

def toJson (p : Parameter) : Json := .object [("name", .string p.name), ("ty", p.type.toJson)]

def ofJson? (x : Json) : Option Parameter := do
  let [name, type] ← Json.record? ["name", "ty"] x | none
  return { name := ← name.required Json.text?, type := ← type.required TypeRef.ofJson? }

end Parameter

namespace Slot

def toJson (s : Slot) : Json :=
  .object <|
    [("id", .natural s.id), ("kind", .string s.kind.tag), ("name", .string s.name),
      ("parent", Json.ofOption .natural s.parent),
      ("children", .array (s.children.map .natural)),
      ("ty", Json.ofOption TypeRef.toJson s.type)] ++
    (if s.parameters = [] then [] else
      [("parameters", .array (s.parameters.map Parameter.toJson))]) ++
    (s.value.elim [] fun v => [("value", .string v)]) ++
    (s.initialName.elim [] fun n => [("original_name", .string n)]) ++
    [("flags", .string s.flags.text)]

def fieldNames : List String :=
  ["id", "kind", "name", "parent", "children", "ty", "parameters", "value", "original_name",
    "flags"]

def ofJson? (x : Json) : Option Slot := do
  let [id, kind, name, parent, children, type, parameters, value, initialName, flags] ←
    Json.record? fieldNames x | none
  return {
    id := ← id.required Json.natural?
    kind := ← kind.required Kind.ofJson?
    name := ← name.required Json.text?
    parent := ← parent.nullable Json.natural?
    children := ← children.required (Json.listOf? Json.natural?)
    type := ← type.nullable TypeRef.ofJson?
    parameters := ← parameters.defaulted (Json.listOf? Parameter.ofJson?) []
    value := ← value.omissible Json.text?
    initialName := ← initialName.omissible Json.text?
    flags := ← flags.required fun x => x.text?.bind Flags.ofText? }

end Slot

namespace Pending

def toJson (p : Pending) : Json :=
  .object [("unit", .string p.unit), ("owner", Json.ofOption .string p.owner),
    ("decl", .natural p.decl)]

def ofJson? (x : Json) : Option Pending := do
  let [unit, owner, decl] ← Json.record? ["unit", "owner", "decl"] x | none
  return {
    unit := ← unit.required Json.text?
    owner := ← owner.nullable Json.text?
    decl := ← decl.required Json.natural? }

end Pending

namespace Graph

def toJson (g : Graph) : Json :=
  .object <|
    [("decls", .array (g.slots.toList.map Slot.toJson)),
      ("units", .array (g.units.map .natural))] ++
    if g.pending = [] then [] else [("pending", .array (g.pending.map Pending.toJson))]

def ofJson? (x : Json) : Option Graph := do
  let [slots, units, pending] ← Json.record? ["decls", "units", "pending"] x | none
  return {
    slots := (← slots.required (Json.listOf? Slot.ofJson?)).toArray
    units := ← units.required (Json.listOf? Json.natural?)
    pending := ← pending.defaulted (Json.listOf? Pending.ofJson?) [] }

end Graph

end Bindery

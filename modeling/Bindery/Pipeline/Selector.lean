import Bindery.Graph.Walk
import Bindery.Pipeline.Error
import Bindery.Text.Occurrence

/-!
# Selectors

A `Selector` is the criterion by which a rule finds its targets in a graph. Most of them are for
exactly one declaration, and fail if none or several answer to them; the others find any number.
-/

namespace Bindery

/-- The result of a search: nothing at all if the graph leads to a number without a slot. -/
abbrev Lookup := ExceptT PipelineError Option

/-- The one candidate. -/
def findSingle (candidates : List DeclId) (description : String) : Except PipelineError DeclId :=
  match candidates with
  | [id] => .ok id
  | [] => .error (.noMatch description)
  | ids => .error (.ambiguous description ids.length)

namespace Graph

/-- The unit of a file. -/
def resolveUnit (g : Graph) (file : String) : Lookup DeclId := do
  let units ← (g.units.mapM g.find? : Option (List Found))
  let candidates := (units.filter (·.slot.name == file)).map Found.id
  match findSingle candidates ("translation unit '" ++ file ++ "'") with
  | .error (.noMatch _) => throw (.missingUnit file)
  | .error e => throw e
  | .ok id => return id

/-- The live class of a name that has a body. -/
def resolveClass (g : Graph) (name : String) : Lookup DeclId := do
  let candidates ← (g.liveWhere? fun s =>
    s.kind == .record && s.name == name && s.isComplete : Option (List DeclId))
  findSingle candidates ("class '" ++ name ++ "'")

end Graph

/-- Where searches start that are about the main header. -/
structure Scope where
  unit : DeclId
  deriving DecidableEq, Inhabited

def Scope.primary (g : Graph) (header : String) : Lookup Scope := return ⟨← g.resolveUnit header⟩

inductive MemberKind where
  | method | property
  deriving DecidableEq, Inhabited

namespace MemberKind

def kind : MemberKind → Kind
  | .method => .method
  | .property => .property

end MemberKind

inductive Selector where
  /-- A namespace right below the main unit, of any name if none is given. -/
  | namespace (name : Option String)
  | record (name : String)
  | member (kind : MemberKind) (owner name : String)
  | function (name : String)
  | enumeration (name : String)
  /-- A typedef right inside a namespace that is right below the main unit. -/
  | alias (space name : String)
  | enumerationsWithSuffix (suffix : String)
  | enumerationsContaining (part : String)
  | itemsWithSuffix (suffix : String)
  /-- Properties of classes right below the main unit whose type is an instance of the template. -/
  | templateProperties (template : String)
  deriving DecidableEq, Inhabited

namespace Selector

/-- Whether the selector is for exactly one declaration. -/
def isUnique : Selector → Bool
  | .enumerationsWithSuffix _ | .enumerationsContaining _ | .itemsWithSuffix _
  | .templateProperties _ => false
  | _ => true

def description : Selector → String
  | .namespace (some name) => "namespace '" ++ name ++ "' of the primary unit"
  | .namespace none => "nested namespace of the primary unit"
  | .record name => "class '" ++ name ++ "'"
  | .member kind owner name => kind.kind.label ++ " '" ++ owner ++ "::" ++ name ++ "'"
  | .function name => "function '" ++ name ++ "'"
  | .enumeration name => "enumeration '" ++ name ++ "'"
  | .alias space name => "typedef '" ++ space ++ "::" ++ name ++ "'"
  | .enumerationsWithSuffix suffix => "enumerations ending with '" ++ suffix ++ "'"
  | .enumerationsContaining part => "enumerations containing '" ++ part ++ "'"
  | .itemsWithSuffix suffix => "enum items ending with '" ++ suffix ++ "'"
  | .templateProperties template => "properties of type " ++ template ++ "<T>"

/-- Whether `s` has the kind and the name. -/
def answersTo (kind : Kind) (name : String) (s : Slot) : Bool := s.kind == kind && s.name == name

def endsWith (suffix name : String) : Bool := suffix.toList.isSuffixOf name.toList

def contains (part name : String) : Bool := Text.contains part.toList name.toList

/-- The namespace right below the main unit that the selector `.namespace name` is for. -/
def resolveNamespace (g : Graph) (scope : Scope) (name : Option String) : Lookup DeclId := do
  let candidates ← (g.childrenWhere? scope.unit fun s =>
    s.kind == .namespace && name.all (s.name == ·) : Option (List DeclId))
  findSingle candidates (Selector.namespace name).description

/-- The declarations that the selector is for. -/
def resolve (g : Graph) (scope : Scope) (sel : Selector) : Lookup (List DeclId) := do
  let one (ids : Option (List DeclId)) : Lookup (List DeclId) := do
    return [← findSingle (← ids) sel.description]
  match sel with
  | .namespace name => return [← resolveNamespace g scope name]
  | .record name => return [← g.resolveClass name]
  | .member kind owner name =>
    let owner ← g.resolveClass owner
    one (g.childrenWhere? owner (answersTo kind.kind name))
  | .function name => one (g.liveWhere? (answersTo .function name))
  | .enumeration name => one (g.liveWhere? (answersTo .enumeration name))
  | .alias space name =>
    let space ← resolveNamespace g scope (some space)
    one (g.childrenWhere? space (answersTo .alias name))
  | .enumerationsWithSuffix suffix =>
    g.liveWhere? fun s => s.kind == .enumeration && endsWith suffix s.name
  | .enumerationsContaining part =>
    g.liveWhere? fun s => s.kind == .enumeration && contains part s.name
  | .itemsWithSuffix suffix => g.liveWhere? fun s => s.kind == .item && endsWith suffix s.name
  | .templateProperties template =>
    let classes ← (g.membersOfKind? scope.unit .record : Option (List DeclId))
    let found ← (classes.mapM fun c => g.childrenWhere? c fun s =>
      s.kind == .property && s.type.any (·.isSpecializationOf template) :
      Option (List (List DeclId)))
    return found.flatten

end Selector

end Bindery

import Bindery.Declaration

/-!
# Declaration dumps

What a dump says, block by block. A unit block lists the declarations of one header; a generated
block lists what the toolchain made for a header, some of it members of a class that is declared
elsewhere.
-/

namespace Bindery.Dump

inductive Member where
  | field (name : String) (type : TypeRef)
  | method (name : String) (parameters : List Parameter) (returns : TypeRef)
  deriving Inhabited

structure EnumItem where
  name : String
  value : Option String
  deriving DecidableEq, Inhabited

inductive Entry where
  | namespace (name : String) (entries : List Entry)
  /-- A class without members is only announced. -/
  | record (name : String) (members : Option (List Member))
  | enumeration (name : String) (isBitmask : Bool) (items : List EnumItem)
  | alias (name : String) (target : TypeRef)
  | function (name : String) (parameters : List Parameter) (returns : TypeRef)
  deriving Inhabited

inductive Product where
  | extension (owner : String) (members : List Member)
  | entry (e : Entry)
  deriving Inhabited

inductive Block where
  | unit (file : String) (entries : List Entry)
  | generated (file : String) (products : List Product)
  deriving Inhabited

end Bindery.Dump

namespace Bindery

/-- The blocks of a dump in their order. -/
abbrev Dump := List Dump.Block

end Bindery

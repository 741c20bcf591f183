/-!
# Types of declarations

A `TypeRef` is the type that the toolchain reports for a field, a parameter, a result or a typedef.
`spelling` is its text, close to the one in a header.
-/

namespace Bindery

inductive TypeRef where
  /-- A built-in or user type, with its qualifiers: `const char`, `unsigned int`. -/
  | named (name : String)
  | pointer (pointee : TypeRef)
  | array (element : TypeRef) (size : Option String)
  | specialization (template : String) (arguments : List TypeRef)
  | function (returns : TypeRef) (parameters : List TypeRef)
  deriving Inhabited

namespace TypeRef

def void : TypeRef := .named "void"

/-- Whether the type is an instance of the class template `template`. -/
def isSpecializationOf (template : String) : TypeRef → Bool
  | .specialization t _ => t == template
  | _ => false

mutual

def spelling : TypeRef → String
  | .named name => name
  | .pointer t => t.spelling ++ "*"
  | .array t size => t.spelling ++ "[" ++ size.getD "" ++ "]"
  | .specialization template args => template ++ "<" ++ spellings args ++ ">"
  | .function returns params => "fn(" ++ spellings params ++ ") -> " ++ returns.spelling

/-- The spellings of a list of types, with a comma and a space between two of them. -/
def spellings : List TypeRef → String
  | [] => ""
  | [t] => t.spelling
  | t :: ts => t.spelling ++ ", " ++ spellings ts

end

end TypeRef

end Bindery

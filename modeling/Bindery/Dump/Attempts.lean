/-!
# What a failed reading expected

While a dump is read, `Attempts` keeps the farthest place at which a construct of the language
failed, and the constructs that failed there. A construct stands for those inside it that failed at
its own start, unless there was just one of them.
-/

namespace Bindery.Dump

/-- The constructs of the dump language that a message may name. -/
inductive Construct where
  | endOfInput | ident | string | stringInner
  | kwUnit | kwGenerated | kwNamespace | kwClass | kwExtend | kwEnum | kwAlias | kwFn | kwMethod
  | kwField
  | typeRef | fnType | templateType | namedType | pointer | arraySuffix | arraySize | returnType
  | namespaceDecl | classDecl | classBody | extendDecl | fieldDecl | methodDecl | functionDecl
  | param | aliasDecl | enumDecl | flagsMarker | enumItem | enumValue
  | unitBlock | generatedBlock | file
  deriving DecidableEq, Inhabited

namespace Construct

/-- All constructs with their names, in the order of a message. -/
def names : List (Construct × String) :=
  [(.endOfInput, "EOI"), (.ident, "ident"), (.string, "string"), (.stringInner, "string_inner"),
    (.kwUnit, "kw_unit"), (.kwGenerated, "kw_generated"), (.kwNamespace, "kw_namespace"),
    (.kwClass, "kw_class"), (.kwExtend, "kw_extend"), (.kwEnum, "kw_enum"),
    (.kwAlias, "kw_typedef"), (.kwFn, "kw_fn"), (.kwMethod, "kw_method"),
    (.kwField, "kw_field"), (.typeRef, "type_ref"), (.fnType, "fn_type"),
    (.templateType, "template_type"), (.namedType, "named_type"), (.pointer, "pointer"),
    (.arraySuffix, "array_suffix"), (.arraySize, "array_size"), (.returnType, "return_type"),
    (.namespaceDecl, "namespace_decl"), (.classDecl, "class_decl"), (.classBody, "class_body"),
    (.extendDecl, "extend_decl"), (.fieldDecl, "field_decl"), (.methodDecl, "method_decl"),
    (.functionDecl, "function_decl"), (.param, "param"), (.aliasDecl, "typedef_decl"),
    (.enumDecl, "enum_decl"), (.flagsMarker, "flags_marker"), (.enumItem, "enum_item"),
    (.enumValue, "enum_value"), (.unitBlock, "unit_block"), (.generatedBlock, "generated_block"),
    (.file, "file")]

/-- The names of some constructs, each once. -/
def namesOf (cs : List Construct) : List String :=
  (names.filter fun p => cs.contains p.1).map Prod.snd

end Construct

structure Attempts where
  /-- How many characters stand before the place. -/
  pos : Nat := 0
  constructs : List Construct := []
  deriving Inhabited

namespace Attempts

/-- How many constructs have failed at `pos`. -/
def countAt (a : Attempts) (pos : Nat) : Nat := if a.pos = pos then a.constructs.length else 0

/-- Records that `c`, begun at `pos` when `before` constructs had failed there, has failed. -/
def failed (a : Attempts) (c : Construct) (pos before : Nat) : Attempts :=
  if a.countAt pos = before + 1 then a
  else if a.pos = pos then ⟨pos, a.constructs.take before ++ [c]⟩
  else if a.pos < pos then ⟨pos, [c]⟩
  else a

end Attempts

end Bindery.Dump

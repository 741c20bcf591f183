import Bindery.Pipeline.Rule

/-!
# Rule tables

The rules of the standard passes. They are data, which can be looked at without running a pass.
-/

namespace Bindery.Tables

def ignore (selector : Selector) (reason : String) : Rule := ⟨selector, .ignore, reason⟩

def method (owner name : String) : Selector := .member .method owner name

def property (owner name : String) : Selector := .member .property owner name

/-- The main unit's one namespace goes into the unit. -/
def namespaceConsolidation : List Rule := [⟨.namespace none, .hoist, ""⟩]

/-- Classes that are written by hand, but have to keep value semantics. -/
def valueTypes : List Rule :=
  ["ImDrawVert", "ImVec2", "ImVec4"].map fun name => ⟨.record name, .markValueType, ""⟩

def earlyIgnores : List Rule :=
  [ignore (.record "ImColor") "unused",
    ignore (method "ImDrawCmd" "GetTexID") "manual",
    ignore (method "ImDrawList" "GetClipRectMax") "manual",
    ignore (method "ImDrawList" "GetClipRectMin") "manual",
    ignore (.record "ImDrawVert") "manual",
    ignore (method "ImFont" "GetDebugName") "manual",
    ignore (method "ImFont" "IsLoaded") "manual",
    ignore (.record "ImVec2") "manual",
    ignore (.record "ImVec4") "manual",
    ignore (.record "ImVector") "manual",
    ignore (.function "IM_DELETE") "unused",
    ignore (.enumeration "ImGuiModFlags_") "unused",
    ignore (.enumeration "ImGuiNavInput_") "unused"]

/-- Targets that are there only once the toolchain's declarations are attached. -/
def lateIgnores : List Rule :=
  [ignore (property "ImDrawData" "CmdLists") "manual",
    ignore (property "ImDrawList" "ClipRectStack") "intern",
    ignore (property "ImDrawList" "CmdHeader") "intern",
    ignore (property "ImDrawList" "FringeScale") "intern",
    ignore (property "ImDrawList" "IdxWritePtr") "intern",
    ignore (property "ImDrawList" "Path") "intern",
    ignore (property "ImDrawList" "Splitter") "intern",
    ignore (property "ImDrawList" "TextureIdStack") "intern",
    ignore (property "ImDrawList" "VtxCurrentIdx") "intern",
    ignore (property "ImDrawList" "VtxWritePtr") "intern",
    ignore (property "ImFontAtlas" "IsBuilt") "manual",
    ignore (method "ImFontAtlas" "SetTexID") "manual",
    ignore (property "ImFontAtlas" "TexUvLines") "manual",
    ignore (property "ImGuiIO" "MouseClickedPos") "manual",
    ignore (property "ImGuiStyle" "Colors") "manual",
    ignore (.record "ImVectorExtensions") "unused"]

/-- The namespace in which the toolchain declares delegates. -/
def delegateSpace : String := "Delegates"

def delegate (synthetic name : String) : Rule :=
  ⟨.alias delegateSpace synthetic, .rename name, ""⟩

/-- The toolchain names a delegate after its signature; here it gets a name that lasts. -/
def delegates : List Rule :=
  [delegate "Func___IntPtr___IntPtr" "ImGetClipboardTextHandler",
    delegate "Action___IntPtr_string8" "ImSetClipboardTextHandler",
    delegate "Action___IntPtr___IntPtr" "ImSetPlatformImeDataHandler",
    delegate "Func_bool___IntPtr_int_sbytePtrPtr" "ImItemsGetterHandler",
    delegate "Func_float___IntPtr_int" "ImValuesGetterHandler",
    ⟨.namespace (some delegateSpace), .hoist, ""⟩]

/-- The ends of names of items that mark a range or a size. -/
def sentinelSuffixes : List String := ["_BEGIN", "_END", "_COUNT", "_SIZE", "_OFFSET"]

/-- Range marks, private enumerations and the convention for names of bit masks. -/
def enumerations : List Rule :=
  sentinelSuffixes.map (fun suffix => ignore (.itemsWithSuffix suffix) "sentinel") ++
    [ignore (.enumerationsWithSuffix "Private_") "private",
      ⟨.enumerationsContaining "Flags", .markBitmask, ""⟩]

/-- A new vector in such a property would not be the native one. -/
def propertyMutability : List Rule := [⟨.templateProperties "ImVector", .markReadOnly, ""⟩]

/-- The tables by the names of their passes. -/
def all : List (String × List Rule) :=
  [("namespace-consolidation", namespaceConsolidation),
    ("value-types", valueTypes),
    ("ignores", earlyIgnores),
    ("post-build-ignores", lateIgnores),
    ("delegates", delegates),
    ("enumerations", enumerations),
    ("property-mutability", propertyMutability)]

end Bindery.Tables

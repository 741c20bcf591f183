import Bindery.File.Path
import Bindery.Json.Value
import Bindery.Text.Blank
import Bindery.Variant

/-!
# Configuration

What a run needs to know, with the values that hold unless the environment says otherwise.
-/

namespace Bindery

structure Config where
  /-- The name of the native library. -/
  moduleName : String := "imgui"
  /-- The namespace of the generated code. -/
  outputNamespace : String := "ImGuiNET"
  headers : List String := ["imgui.h"]
  includeDirs : List Path := [.text "imgui"]
  defines : List String := ["IMGUI_DISABLE_OBSOLETE_FUNCTIONS", "IMGUI_DISABLE_OBSOLETE_KEYIO"]
  dumpPath : Path := .text "imgui.decls"
  outputRoot : Path := .text "."
  deriving DecidableEq, Inhabited

namespace Config

/-- The items between commas, without blanks around them and without empty ones. -/
def splitList (value : String) : List String :=
  (((value.toList.splitOn ',').map Text.trim).filter (!·.isEmpty)).map String.ofList

/-- The variables of the environment that override a default. -/
def environmentNames : List String :=
  ["IMGUI_BINDGEN_MODULE", "IMGUI_BINDGEN_NAMESPACE", "IMGUI_BINDGEN_HEADERS",
    "IMGUI_BINDGEN_INCLUDE_DIRS", "IMGUI_BINDGEN_DEFINES", "IMGUI_BINDGEN_DUMP",
    "IMGUI_BINDGEN_OUTPUT_ROOT"]

/-- The defaults, overridden by what `lookup` finds in the environment. -/
def ofEnvironment (lookup : String → Option String) : Config :=
  let d : Config := {}
  { moduleName := (lookup "IMGUI_BINDGEN_MODULE").getD d.moduleName
    outputNamespace := (lookup "IMGUI_BINDGEN_NAMESPACE").getD d.outputNamespace
    headers := ((lookup "IMGUI_BINDGEN_HEADERS").map splitList).getD d.headers
    includeDirs := ((lookup "IMGUI_BINDGEN_INCLUDE_DIRS").map fun v =>
      (splitList v).map RawText.text).getD d.includeDirs
    defines := ((lookup "IMGUI_BINDGEN_DEFINES").map splitList).getD d.defines
    dumpPath := ((lookup "IMGUI_BINDGEN_DUMP").map RawText.text).getD d.dumpPath
    outputRoot := ((lookup "IMGUI_BINDGEN_OUTPUT_ROOT").map RawText.text).getD d.outputRoot }

/-- The header whose unit the passes are about. -/
def primaryHeader (c : Config) : String := c.headers.head?.getD (c.moduleName ++ ".h")

def outputDir (c : Config) (v : Variant) : Path := Path.join c.outputRoot (.text v.directory)

/-- The file that the emitter writes. -/
def generatedSource (c : Config) (v : Variant) : Path :=
  Path.join (c.outputDir v) (.text (c.moduleName ++ ".cs"))

/-- The stored form, unless a path is no text. -/
def toJson? (c : Config) : Option Json := do
  let path (p : Path) : Option Json := p.text?.map .string
  return .object [("module_name", .string c.moduleName),
    ("output_namespace", .string c.outputNamespace),
    ("headers", .array (c.headers.map .string)),
    ("include_dirs", .array (← c.includeDirs.mapM path)),
    ("defines", .array (c.defines.map .string)),
    ("dump_path", ← path c.dumpPath),
    ("output_root", ← path c.outputRoot)]

end Config

end Bindery

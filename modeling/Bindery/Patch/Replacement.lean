import Bindery.Log
import Bindery.Text.Occurrence
import Bindery.Text.Quoted

/-!
# Literal replacements

`Replacement.apply` replaces every occurrence of one text by another. The table `cleanup` is applied
in its order, as later replacements are about what earlier ones leave.
-/

namespace Bindery

structure Replacement where
  old : String
  new : String
  deriving DecidableEq, Inhabited

namespace Replacement

def apply (r : Replacement) (s : List Char) : List Char :=
  Text.replaceAll r.old.toList r.new.toList s

/-- How often the old text occurs. -/
def hits (r : Replacement) (s : List Char) : Nat := Text.occurrences r.old.toList s

def applyAll (table : List Replacement) (s : List Char) : List Char :=
  table.foldl (fun s r => r.apply s) s

theorem applyAll_append (rs qs : List Replacement) (s : List Char) :
    applyAll (rs ++ qs) s = applyAll qs (applyAll rs s) :=
  List.foldl_append

/-- What the log says while a table is applied: one line for each replacement that has a hit. -/
def hitLog : List Replacement → List Char → List LogLine
  | [], _ => []
  | r :: rs, s =>
    let n := r.hits s
    (if n > 0 then
      [⟨.patches, .debug, "Replaced " ++ toString n ++ " occurrences of " ++ Text.quoted r.old⟩]
    else []) ++ hitLog rs (r.apply s)

/-- What has to be mended in an emitted source. -/
def cleanup : List Replacement :=
  [ -- the type is called ImGui, the native library stays as it is
    ⟨"imgui", "ImGui"⟩,
    ⟨"\"ImGui\"", "\"imgui\""⟩,
    -- pointers to native instances
    ⟨"public __IntPtr __Instance \x7b get; protected set; \x7d",
      "internal __IntPtr __Instance \x7b get; set; \x7d"⟩,
    -- layouts of native structures
    ⟨"public partial struct __Internal", "internal partial struct __Internal"⟩,
    ⟨"public unsafe partial struct __Internal", "internal unsafe partial struct __Internal"⟩,
    -- vectors that are replaced, but whose layouts are still used
    ⟨"public unsafe partial struct ImVec2", "internal unsafe partial struct ImVec2"⟩,
    ⟨"public unsafe partial struct ImVec4", "internal unsafe partial struct ImVec4"⟩,
    ⟨"new global::ImGuiNET.ImVec2.__Internal()", "new global::System.Numerics.Vector2()"⟩,
    ⟨"new global::ImGuiNET.ImVec4.__Internal()", "new global::System.Numerics.Vector4()"⟩,
    -- a generic class may not declare native functions
    ⟨"namespace ImVector", "internal static partial class ImVector"⟩,
    -- the symbols become part of the class ImGui
    ⟨"\x7d\r\nnamespace ImGuiNET.__Symbols\r\n\x7b\r\n    internal class ImGui",
      "    public unsafe partial class ImGui"⟩,
    ⟨"\x7d\nnamespace ImGuiNET.__Symbols\n\x7b\n    internal class ImGui",
      "    public unsafe partial class ImGui"⟩,
    ⟨"public static IntPtr _EmptyString_ImGuiTextBuffer__2PADA",
      "internal static IntPtr _EmptyString_ImGuiTextBuffer__2PADA"⟩,
    ⟨".__Symbols", ""⟩]

end Replacement

end Bindery

/-!
# Usage
-/

namespace Bindery.Usage

def programName : String := "imgui-bindgen"

def version : String := programName ++ " 0.1.0\n"

def help : String :=
  "Generate and clean up the Dear ImGui C# bindings\n" ++
  "\n" ++
  "Usage: " ++ programName ++ " [OPTIONS]\n" ++
  "\n" ++
  "Options:\n" ++
  "      --old                Generate the legacy bindings into OLD/\n" ++
  "      --new                Generate the enhanced bindings into NEW/\n" ++
  "      --cln                Clean up the emitted NEW/ and OLD/ sources in place\n" ++
  "      --dump <FILE>        Declaration dump written by the C++ toolchain\n" ++
  "      --output-root <DIR>  Directory holding OLD/ and NEW/\n" ++
  "      --check              Resolve every rule table against the dump and report, " ++
    "writing nothing\n" ++
  "      --tree               Log the transformed declaration tree\n" ++
  "  -v, --verbose            Enable verbose output\n" ++
  "  -h, --help               Print help\n" ++
  "  -V, --version            Print version\n" ++
  "\n" ++
  "Single-dash spellings (-old, -NEW, -Cln) are accepted as well.\n"

end Bindery.Usage

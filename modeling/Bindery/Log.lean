import Bindery.Text.Plain

/-!
# Log lines

A line has a level, and a topic by whose path a filter knows it.
-/

namespace Bindery

/-- Levels from the most to the least urgent. -/
inductive Level where
  | error | warn | info | debug
  deriving DecidableEq, Inhabited

namespace Level

def name : Level → String
  | .error => "ERROR"
  | .warn => "WARN"
  | .info => "INFO"
  | .debug => "DEBUG"

def rank : Level → Nat
  | .error => 1
  | .warn => 2
  | .info => 3
  | .debug => 4

end Level

/-- What a line is about. -/
inductive Topic where
  | commands | patches | toolchain | pipeline | rules | passes
  deriving DecidableEq, Inhabited

/-- The path of a topic, of which a filter may give the beginning. -/
def Topic.path : Topic → String
  | .commands => "imgui_bindgen::cli::commands"
  | .patches => "imgui_bindgen::textpatch"
  | .toolchain => "imgui_bindgen::toolchain"
  | .pipeline => "imgui_bindgen::pipeline"
  | .rules => "imgui_bindgen::pipeline::rules"
  | .passes => "imgui_bindgen::pipeline::passes"

structure LogLine where
  topic : Topic
  level : Level
  message : String
  deriving DecidableEq, Inhabited

namespace LogLine

/-- The line as it is, with whatever its message may do to a terminal. -/
def rawText (l : LogLine) : String := "[" ++ l.level.name ++ "] " ++ l.message ++ "\n"

/-- The line without control sequences. -/
def text (l : LogLine) : String := String.ofList (Text.plain l.rawText.toList)

end LogLine

end Bindery

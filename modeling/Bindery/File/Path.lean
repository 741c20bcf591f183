import Bindery.Text.Raw

/-!
# Paths

A path is a text with slashes. `Path.join` puts one after another; `Path.steps` and `Path.parts` are
its names without those that mean nothing.
-/

namespace Bindery

abbrev Path := RawText

namespace Path

def slash : UInt8 := 47

/-- How many bytes a name may have. -/
def maxNameBytes : Nat := 255

/-- How many bytes a path may have. -/
def maxBytes : Nat := 4095

def isAbsolute (p : Path) : Bool := p.toBytes.head? == some slash

def endsInSlash (p : Path) : Bool := p.toBytes.getLast? == some slash

def isEmpty (p : Path) : Bool := p == .text ""

/-- `part` as seen from `base`; an absolute path is the same from everywhere. -/
def join (base part : Path) : Path :=
  if isAbsolute part || isEmpty base then part
  else if endsInSlash base then base ++ part
  else base ++ .text "/" ++ part

/-- The names between slashes. -/
def names : Path → List RawText
  | .text s => (s.toList.splitOn '/').map fun cs => .text (String.ofList cs)
  | .bytes bs => (bs.splitOn slash).map .ofBytes

/-- The names that have to be followed, of which a single dot leads nowhere else. -/
def steps (p : Path) : List RawText := p.names.filter (· != .text "")

/-- The names that lead somewhere else. -/
def parts (p : Path) : List RawText := p.steps.filter (· != .text ".")

end Path

end Bindery

import Bindery.Text.Raw

/-!
# Spellings of modes

A mode may be written with one dash or two, and in letters of either case; `normalize` gives it the
one spelling that the options have. No other argument is touched.
-/

namespace Bindery.Argument

def modes : List String := ["old", "new", "cln"]

/-- The mode that an argument asks for. -/
def mode? (s : String) : Option String :=
  let lowered := s.toList.map Char.toLower
  let flag := lowered.dropWhile (· = '-')
  let dashes := lowered.length - flag.length
  if dashes = 1 ∨ dashes = 2 then modes.find? (·.toList == flag) else none

def normalizeOne : RawText → RawText
  | .text s =>
    match mode? s with
    | some mode => .text ("--" ++ mode)
    | none => .text s
  | .bytes bs => .bytes bs

/-- Normalizes the arguments, which are those after the name of the program. -/
def normalize (args : List RawText) : List RawText := args.map normalizeOne

end Bindery.Argument

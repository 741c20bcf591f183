import Bindery.Program

/-!
# Main

Reads the arguments, the environment and the files that a run may touch, lets `Program.run` decide
what becomes of them, and carries that out.
-/

namespace Bindery

/-- A path that leads to a place from the root. -/
def absolutePath (p : Place) : String := "/" ++ "/".intercalate (p.map RawText.shown)

/-- What stands at a place now. -/
def nodeAt (p : Place) : IO (Option Node) := do
  try
    let content ← IO.FS.readBinFile (absolutePath p)
    return some (.file (.ofBytes content.toList))
  catch
    | .noFileOrDirectory .. | .invalidArgument .. => return none
    | .inappropriateType .. => return some .directory
    | e => throw e

/-- Adds a place and those above it, as far as they are there. -/
def observe (fs : FileSystem) (p : Place) : IO FileSystem := do
  let mut fs := fs
  for k in List.range p.length do
    let above := p.take (k + 1)
    if (fs.node? above).isNone && fs.node? above.dropLast == some .directory then
      if let some n ← nodeAt above then fs := fs.put above n
  return fs

/-- Makes the files what they are in `after`. -/
def carryOut (before after : FileSystem) : IO Unit := do
  for (p, n) in after.nodes do
    if before.node? p != some n then
      match n with
      | .directory => IO.FS.createDirAll (absolutePath p)
      | .file content => IO.FS.writeBinFile (absolutePath p) content.toBytes.toByteArray

def loadEnvironment : IO (List (String × String)) :=
  Program.environmentNames.filterMapM fun name => do return (← IO.getEnv name).map (name, ·)

end Bindery

open Bindery in
def main (args : List String) : IO UInt32 := do
  let environment ← loadEnvironment
  let lookup (name : String) := environment.lookup name
  let args := args.map RawText.text
  let home := Path.parts (.text (← IO.currentDir).toString)
  let mut files ← observe { home := home } home
  for path in Program.touched args lookup do
    files ← observe files (files.lexicalPlace path)
  match Program.run args lookup files with
  | none => return 101
  | some outcome =>
    carryOut files outcome.files
    (← IO.getStdout).putStr outcome.output
    (← IO.getStderr).putStr outcome.errors
    return outcome.code.toUInt32

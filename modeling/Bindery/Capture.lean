import Bindery.File.System
import Bindery.Log

/-!
# Captures of the log

Whatever is logged goes to the error stream and, while a capture is running, to the end of one file.
A capture begins with an empty file, and ends when its guard is released or another one begins; the
guard of a capture that has ended stops nothing.
-/

namespace Bindery

/-- The right to end a capture. -/
structure Guard where
  generation : Nat
  path : Path
  deriving DecidableEq, Inhabited

/-- A running capture, and the place of its file. -/
structure Sink where
  generation : Nat
  place : Place
  deriving DecidableEq, Inhabited

structure Tee where
  files : FileSystem
  /-- What the error stream got. -/
  errors : String := ""
  sink : Option Sink := none
  /-- The generation of the next capture. A counter of 64 bits has the same values as long as there
  are fewer than `2 ^ 64` captures. -/
  next : Nat := 1
  deriving Inhabited

namespace Tee

def write (t : Tee) (s : String) : Tee :=
  { t with
    errors := t.errors ++ s
    files := t.sink.elim t.files fun k => t.files.append k.place (.text s) }

/-- Begins a capture into a file, which is made empty; any other capture ends. -/
def capture (t : Tee) (path : Path) : Except FileError (Guard × Tee) := do
  let place ← t.files.filePlace path
  let files := t.files.put place (.file (.text ""))
  return ({ generation := t.next, path := path },
    { t with files := files, sink := some ⟨t.next, place⟩, next := t.next + 1 })

/-- Ends the capture of a guard, if that is the one that is running. -/
def release (t : Tee) (g : Guard) : Tee :=
  if t.sink.any (·.generation == g.generation) then { t with sink := none } else t

/-- Only the capture of the guard itself ends. -/
theorem sink_release (t : Tee) (g : Guard) :
    (t.release g).sink = t.sink.filter (·.generation != g.generation) := by
  unfold release
  cases h : t.sink with
  | none => simp [h]
  | some k => by_cases hk : k.generation = g.generation <;> simp [h, hk, Option.filter]

theorem files_release (t : Tee) (g : Guard) : (t.release g).files = t.files := by
  unfold release
  split <;> rfl

end Tee

end Bindery

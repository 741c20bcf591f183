import Bindery.Capture
import Bindery.Command.Failure
import Bindery.Log.Filter
import Bindery.Pipeline.Step

/-!
# Commands

A `Command` works on a `World`: files, the log with its capture, and the output. When it fails, what
it has done so far stays.
-/

namespace Bindery

structure World where
  tee : Tee
  /-- What of the log is written. -/
  filter : LogFilter := .upTo .debug
  /-- Control sequences in messages are written as well. -/
  keepsControls : Bool := false
  output : String := ""
  deriving Inhabited

/-- A world with the given files in which nothing has happened yet. -/
def World.ofFiles (files : FileSystem) : World := { tee := { files := files } }

def Command (α : Type) : Type := World → Option (Except Failure α × World)

namespace Command

variable {α : Type}

protected def pure (x : α) : Command α := fun w => some (.ok x, w)

protected def bind {β : Type} (p : Command α) (f : α → Command β) : Command β := fun w =>
  match p w with
  | none => none
  | some (.error e, w) => some (.error e, w)
  | some (.ok x, w) => f x w

instance : Monad Command where
  pure := Command.pure
  bind := Command.bind

instance : LawfulMonad Command := LawfulMonad.mk' Command
  (fun p => funext fun w => by
    show Command.bind p Command.pure w = p w
    unfold Command.bind
    rcases p w with _ | ⟨_ | _, _⟩ <;> rfl)
  (fun _ _ => rfl)
  (fun p f q => funext fun w => by
    show Command.bind (Command.bind p f) q w = Command.bind p (fun x => Command.bind (f x) q) w
    unfold Command.bind
    rcases p w with _ | ⟨_ | _, _⟩ <;> rfl)

def fail (f : Failure) : Command α := fun w => some (.error f, w)

/-- Adds what was attempted to a failure. -/
def attempting (what : String) (p : Command α) : Command α := fun w =>
  (p w).map fun
    | (.error f, w) => (.error { f with contexts := what :: f.contexts }, w)
    | (.ok x, w) => (.ok x, w)

def ask (x : Option α) : Command α := fun w => x.map fun a => (.ok a, w)

def ofExcept {ε : Type} (cause : ε → Cause) : Except ε α → Command α
  | .ok x => pure x
  | .error e => fail { cause := cause e }

def print (s : String) : Command Unit := fun w => some (.ok (), { w with output := w.output ++ s })

def logLine (l : LogLine) : Command Unit := fun w =>
  let text := if w.keepsControls then l.rawText else l.text
  some (.ok (), if w.filter.admits l then { w with tee := w.tee.write text } else w)

def log (topic : Topic) (level : Level) (message : String) : Command Unit :=
  logLine ⟨topic, level, message⟩

/-- Something read off the files. -/
def inspect (f : FileSystem → α) : Command α := fun w => some (.ok (f w.tee.files), w)

/-- A change of the files. -/
def change (f : FileSystem → Except FileError FileSystem) : Command Unit := fun w =>
  match f w.tee.files with
  | .ok files => some (.ok (), { w with tee := { w.tee with files := files } })
  | .error e => some (.error { cause := .file e }, w)

/-- Makes a directory and those above it. -/
def makeDirectories (path : Path) : Command Unit := fun w =>
  let (r, files) := w.tee.files.makeDirectories path
  let w := { w with tee := { w.tee with files := files } }
  match r with
  | .ok _ => some (.ok (), w)
  | .error e => some (.error { cause := .file e }, w)

def writeFile (path : Path) (content : String) : Command Unit :=
  attempting ("Failed to write " ++ path.shown) (change (·.write path (.text content)))

/-- Begins a capture of the log. -/
def capture (path : Path) : Command Guard := fun w =>
  match w.tee.capture path with
  | .ok (g, tee) => some (.ok g, { w with tee := tee })
  | .error e => some (.error { cause := .file e }, w)

/-- Runs a command, and ends a capture after it in any case. -/
def releasing (g : Guard) (p : Command α) : Command α := fun w =>
  (p w).map fun (r, w) => (r, { w with tee := w.tee.release g })

/-- Runs a step on a graph, and logs what it logged. -/
def runStep (g : Graph) (p : Step α) : Command (α × Work) := do
  let (r, work) ← ask (p { graph := g })
  work.log.forM logLine
  let x ← ofExcept .pipeline r
  return (x, work)

end Command

end Bindery

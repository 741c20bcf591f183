import Bindery.File.Path

/-!
# Files and directories

A `FileSystem` says which places are directories and what files hold. A place is the list of names
that leads to it from the root, which is always a directory. A `FileError` says why an operation
fails.
-/

namespace Bindery

inductive FileError where
  | notFound | alreadyExists | notDirectory | isDirectory | nameTooLong
  /-- A name with a NUL, which no file can have. -/
  | nulInName
  /-- The file was read, but it is not UTF-8. -/
  | notText
  deriving DecidableEq, Inhabited

def FileError.message : FileError → String
  | .notFound => "No such file or directory (os error 2)"
  | .alreadyExists => "File exists (os error 17)"
  | .notDirectory => "Not a directory (os error 20)"
  | .isDirectory => "Is a directory (os error 21)"
  | .nameTooLong => "File name too long (os error 36)"
  | .nulInName => "file name contained an unexpected NUL byte"
  | .notText => "stream did not contain valid UTF-8"

abbrev Place := List RawText

inductive Node where
  | directory
  | file (content : RawText)
  deriving DecidableEq, Inhabited

/-- A tree of directories and files. It has no links: each place is a file or directory of its own,
and what is written at one place is not found at any other. -/
structure FileSystem where
  nodes : List (Place × Node) := []
  /-- The place from which relative paths start. -/
  home : Place := []
  deriving Inhabited

namespace FileSystem

def node? (fs : FileSystem) (p : Place) : Option Node :=
  if p = [] then some .directory else fs.nodes.lookup p

def put (fs : FileSystem) (p : Place) (n : Node) : FileSystem :=
  if fs.nodes.any (·.1 == p) then
    { fs with nodes := fs.nodes.map fun e => if e.1 == p then (p, n) else e }
  else { fs with nodes := fs.nodes ++ [(p, n)] }

theorem lookup_map_self {nodes : List (Place × Node)} {p : Place} {n : Node}
    (h : nodes.any (·.1 == p)) :
    (nodes.map fun e => if e.1 == p then (p, n) else e).lookup p = some n := by
  induction nodes with
  | nil => simp at h
  | cons e nodes ih =>
    obtain ⟨r, m⟩ := e
    by_cases hr : r = p
    · simp [hr]
    · have hb : (p == r) = false := beq_false_of_ne (Ne.symm hr)
      have hn : nodes.any (·.1 == p) := by simpa [hr] using h
      simpa [hr, hb, List.lookup_cons] using ih hn

theorem lookup_map_of_ne {nodes : List (Place × Node)} {p q : Place} {n : Node} (h : q ≠ p) :
    (nodes.map fun e => if e.1 == p then (p, n) else e).lookup q = nodes.lookup q := by
  have hb : (q == p) = false := beq_false_of_ne h
  induction nodes with
  | nil => rfl
  | cons e nodes ih =>
    obtain ⟨r, m⟩ := e
    by_cases hr : r = p
    · simpa [hr, hb, List.lookup_cons] using ih
    · rw [List.map_cons, List.lookup_cons, List.lookup_cons, ih]
      simp [hr]

theorem lookup_eq_none {nodes : List (Place × Node)} {p : Place}
    (h : ¬ nodes.any (·.1 == p)) : nodes.lookup p = none := by
  simp only [List.any_eq_true, beq_iff_eq, not_exists, not_and] at h
  rw [List.lookup_eq_none_iff]
  intro e he
  exact bne_iff_ne.2 (Ne.symm (h e he))

/-- After something is put at a place, that is what is there, and all else is as it was. -/
theorem node?_put (fs : FileSystem) {p : Place} (hp : p ≠ []) (n : Node) (q : Place) :
    (fs.put p n).node? q = if q = p then some n else fs.node? q := by
  by_cases hq : q = p
  · subst hq
    simp only [node?, hp, if_false, if_true, put]
    split
    · next h => exact lookup_map_self h
    · next h => simp [List.lookup_append, lookup_eq_none h]
  · simp only [node?, hq, if_false, put]
    split
    · rfl
    · split
      · exact lookup_map_of_ne hq
      · have hb : (q == p) = false := beq_false_of_ne hq
        simp [List.lookup_append, List.lookup_cons, hb]

/-- A place from which a name can be followed. -/
def requireDirectory (fs : FileSystem) (p : Place) : Except FileError Unit :=
  match fs.node? p with
  | none => .error .notFound
  | some (.file _) => .error .notDirectory
  | some .directory => .ok ()

/-- One name further from a place, which has to be a directory. -/
def enter (fs : FileSystem) (p : Place) (name : RawText) : Except FileError Place := do
  fs.requireDirectory p
  if name = .text ".." then return p.dropLast
  else if name = .text "." then return p
  else if Path.maxNameBytes < name.toBytes.length then .error .nameTooLong
  else return p ++ [name]

def follow (fs : FileSystem) (start : Place) (names : List RawText) : Except FileError Place :=
  names.foldlM fs.enter start

/-- The place where names start that a path is made of. -/
def startOf (fs : FileSystem) (path : Path) : Place := if path.isAbsolute then [] else fs.home

/-- Where a path leads if all of its parts are directories. -/
def lexicalPlace (fs : FileSystem) (path : Path) : Place :=
  path.parts.foldl (fun p name => if name = .text ".." then p.dropLast else p ++ [name])
    (fs.startOf path)

/-- Refuses a path that leads nowhere, whatever files there are. -/
def checkPath (path : Path) : Except FileError Unit :=
  if path.toBytes.contains 0 then .error .nulInName
  else if Path.maxBytes < path.toBytes.length then .error .nameTooLong
  else if path.isEmpty then .error .notFound
  else .ok ()

/-- The place of a path, all of whose parts but the last are directories. -/
def locate (fs : FileSystem) (path : Path) : Except FileError Place := do
  checkPath path
  fs.follow (fs.startOf path) path.steps

def read (fs : FileSystem) (path : Path) : Except FileError RawText := do
  match fs.node? (← fs.locate path) with
  | none => .error .notFound
  | some .directory => .error .isDirectory
  | some (.file content) => if path.endsInSlash then .error .notDirectory else .ok content

/-- The content of a file that is a text. -/
def readText (fs : FileSystem) (path : Path) : Except FileError String := do
  match ← fs.read path with
  | .text s => .ok s
  | .bytes _ => .error .notText

/-- The place of the file to which `path` leads, or where it can be made. The last name is not
looked up if a slash follows it. -/
def filePlace (fs : FileSystem) (path : Path) : Except FileError Place := do
  checkPath path
  if path.endsInSlash then
    fs.requireDirectory (← fs.follow (fs.startOf path) path.steps.dropLast)
    .error .isDirectory
  else
    let p ← fs.locate path
    if fs.node? p = some .directory then .error .isDirectory else .ok p

/-- Makes `content` what the file holds, which may be a new one. -/
def write (fs : FileSystem) (path : Path) (content : RawText) : Except FileError FileSystem := do
  return fs.put (← fs.filePlace path) (.file content)

/-- Adds to the end of the file at a place, if there is one. -/
def append (fs : FileSystem) (p : Place) (content : RawText) : FileSystem :=
  match fs.node? p with
  | some (.file old) => fs.put p (.file (old ++ content))
  | _ => fs

def exists? (fs : FileSystem) (path : Path) : Bool :=
  match fs.locate path with
  | .error _ => false
  | .ok p =>
    match fs.node? p with
    | none => false
    | some .directory => true
    | some (.file _) => !path.endsInSlash

def isDirectory (fs : FileSystem) (start : Place) (names : List RawText) : Bool :=
  match fs.follow start names with
  | .error _ => false
  | .ok p => fs.node? p == some .directory

/-- Makes one directory; `names` leads there from `start`. -/
def makeDirectory (fs : FileSystem) (start : Place) (names : List RawText) :
    Except FileError FileSystem := do
  let p ← fs.follow start names
  match fs.node? p with
  | some _ => .error .alreadyExists
  | none => .ok (fs.put p .directory)

/-- The end of making the directory to which `names` leads: a failure does not matter if it is
there. -/
def settle (fs : FileSystem) (start : Place) (names : List RawText) (e : FileError) :
    Except FileError Unit × FileSystem :=
  (if fs.isDirectory start names then .ok () else .error e, fs)

/-- Makes a directory and those above it; `names` leads there from the far end. What is made before
a failure stays. -/
def makeDirectoriesAt (fs : FileSystem) (start : Place) :
    List RawText → Except FileError Unit × FileSystem
  | [] => (.ok (), fs)
  | name :: above =>
    let names := (name :: above).reverse
    match fs.makeDirectory start names with
    | .ok fs => (.ok (), fs)
    | .error .notFound =>
      match makeDirectoriesAt fs start above with
      | (.error e, fs) => (.error e, fs)
      | (.ok _, fs) =>
        match fs.makeDirectory start names with
        | .ok fs => (.ok (), fs)
        | .error e => fs.settle start names e
    | .error e => fs.settle start names e

/-- Makes a directory and those above it, as far as they are not there. -/
def makeDirectories (fs : FileSystem) (path : Path) : Except FileError Unit × FileSystem :=
  if path.isEmpty then (.ok (), fs)
  else
    match checkPath path with
    | .error e => (.error e, fs)
    | .ok _ => fs.makeDirectoriesAt (fs.startOf path) path.parts.reverse

end FileSystem

end Bindery

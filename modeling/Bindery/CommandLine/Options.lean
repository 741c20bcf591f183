import Bindery.Text.Raw

/-!
# Options

`Options.read` reads the arguments from left to right. A value that stands in an argument of its own
is looked at when the next option comes, or at the end; an argument that means nothing is refused at
once.
-/

namespace Bindery

structure Options where
  old : Bool := false
  new : Bool := false
  clean : Bool := false
  dump : Option RawText := none
  outputRoot : Option RawText := none
  check : Bool := false
  tree : Bool := false
  verbose : Bool := false
  deriving DecidableEq, Inhabited

/-- Why there are no options to run with. -/
inductive Refusal where
  | help | version | unknownArgument | conflict | invalidValue | tooManyValues
  deriving DecidableEq, Inhabited

/-- The exit code of a program that is asked for its usage, or used wrongly. -/
def Refusal.code : Refusal → Nat
  | .help | .version => 0
  | _ => 2

namespace Options

def hasMode (o : Options) : Bool := o.old || o.new || o.clean || o.check

inductive Switch where
  | old | new | clean | check | tree | verbose | help | version
  deriving DecidableEq, Inhabited

inductive Setting where
  | dump | outputRoot
  deriving DecidableEq, Inhabited

inductive Name where
  | switch (s : Switch)
  | setting (s : Setting)
  deriving DecidableEq, Inhabited

def longNames : List (String × Name) :=
  [("old", .switch .old), ("new", .switch .new), ("cln", .switch .clean),
    ("dump", .setting .dump), ("output-root", .setting .outputRoot),
    ("check", .switch .check), ("tree", .switch .tree), ("verbose", .switch .verbose),
    ("help", .switch .help), ("version", .switch .version)]

def shortNames : List (Char × Switch) := [('v', .verbose), ('h', .help), ('V', .version)]

/-! ## Forms of arguments -/

/-- What an argument looks like. -/
inductive Form where
  /-- Two dashes alone. -/
  | dashes
  /-- Two dashes, a name that may be no text, and a value after an equals sign. -/
  | long (name : Option String) (value : Option RawText)
  /-- One dash and letters, after which something may follow that is no text. -/
  | short (letters : List Char) (isText : Bool)
  | plain
  deriving DecidableEq, Inhabited

/-- What stands before the first `sep`, and what stands after it. -/
def cutAt {α : Type} [BEq α] (sep : α) (xs : List α) : List α × Option (List α) :=
  match xs.dropWhile (· != sep) with
  | [] => (xs, none)
  | _ :: ys => (xs.takeWhile (· != sep), some ys)

def formOf : RawText → Form
  | .text s =>
    match s.toList with
    | ['-', '-'] => .dashes
    | '-' :: '-' :: r =>
      let (name, value) := cutAt '=' r
      .long (some (String.ofList name)) (value.map fun v => .text (String.ofList v))
    | '-' :: c :: r => .short (c :: r) true
    | _ => .plain
  | .bytes bs =>
    match bs with
    | 45 :: 45 :: r =>
      let (name, value) := cutAt 61 r
      .long (RawText.ofBytes name).text? (value.map RawText.ofBytes)
    | 45 :: r => .short (((Text.decodeUtf8 r).takeWhile Option.isSome).filterMap id) false
    | _ => .plain

/-! ## Reading -/

/-- Options so far, and a setting whose value has not been looked at, or has not come yet. -/
structure Reading where
  options : Options := {}
  pending : Option (Setting × Option RawText) := none
  deriving DecidableEq, Inhabited

def setting? (o : Options) : Setting → Option RawText
  | .dump => o.dump
  | .outputRoot => o.outputRoot

/-- The options with a value for a setting, which it may not have yet. -/
def assign (o : Options) (s : Setting) (value : RawText) : Except Refusal Options :=
  if (o.setting? s).isSome then .error .conflict
  else if value = .text "" then .error .invalidValue
  else .ok <|
    match s with
    | .dump => { o with dump := some value }
    | .outputRoot => { o with outputRoot := some value }

/-- The options with a switch on, which it may not be yet. -/
def turnOn (o : Options) : Switch → Except Refusal Options
  | .old => if o.old then .error .conflict else .ok { o with old := true }
  | .new => if o.new then .error .conflict else .ok { o with new := true }
  | .clean => if o.clean then .error .conflict else .ok { o with clean := true }
  | .check => if o.check then .error .conflict else .ok { o with check := true }
  | .tree => if o.tree then .error .conflict else .ok { o with tree := true }
  | .verbose => if o.verbose then .error .conflict else .ok { o with verbose := true }
  | .help => .error .help
  | .version => .error .version

/-- The options with the value that was pending. -/
def settle (r : Reading) : Except Refusal Options :=
  match r.pending with
  | none => .ok r.options
  | some (_, none) => .error .invalidValue
  | some (s, some value) => r.options.assign s value

def readSwitches (r : Reading) : List Switch → Except Refusal Reading
  | [] => .ok r
  | s :: ss => do
    let o ← (← settle r).turnOn s
    readSwitches { options := o } ss

/-- The switches for letters, as far as there are such. -/
def switchesOf (letters : List Char) : List Switch :=
  (letters.map fun c => shortNames.lookup c).takeWhile Option.isSome |>.filterMap id

def readShort (r : Reading) (letters : List Char) (isText : Bool) : Except Refusal Reading := do
  let switches := switchesOf letters
  let r ← readSwitches r switches
  if switches.length = letters.length ∧ isText then return r else .error .unknownArgument

def readLong (r : Reading) (name : Option String) (value : Option RawText) :
    Except Refusal Reading :=
  match (name.bind fun n => longNames.lookup n), value with
  | none, _ => .error .unknownArgument
  | some (.switch s), none => readSwitches r [s]
  | some (.switch _), some _ => .error .tooManyValues
  | some (.setting s), none => do return { options := ← settle r, pending := some (s, none) }
  | some (.setting s), some value => do return { options := ← (← settle r).assign s value }

def readPlain (r : Reading) (arg : RawText) : Except Refusal Reading :=
  match r.pending with
  | some (s, none) => .ok { r with pending := some (s, some arg) }
  | _ => .error .unknownArgument

def readFrom (r : Reading) : List RawText → Except Refusal Options
  | [] => settle r
  | arg :: args =>
    match formOf arg with
    | .dashes => if args.isEmpty then settle r else .error .unknownArgument
    | .long name value => do readFrom (← readLong r name value) args
    | .short letters isText => do readFrom (← readShort r letters isText) args
    | .plain => do readFrom (← readPlain r arg) args

/-- The options that the arguments ask for. The arguments are those after the name of the
program. -/
def read (args : List RawText) : Except Refusal Options := readFrom {} args

end Options

end Bindery

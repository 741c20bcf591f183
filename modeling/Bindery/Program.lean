import Bindery.Command.Modes
import Bindery.CommandLine.Argument
import Bindery.CommandLine.Options
import Bindery.CommandLine.Usage

/-!
# The program

`execute` runs the modes that the options ask for: check, both variants, cleanup. `Program.run` is
the whole program: arguments and environment to files, output and an exit code.
-/

namespace Bindery

namespace Options

/-- The configuration with what the options override. -/
def override (o : Options) (c : Config) : Config :=
  { c with
    dumpPath := o.dump.getD c.dumpPath
    outputRoot := o.outputRoot.getD c.outputRoot }

def execute (o : Options) (c : Config) : Command Unit :=
  if o.hasMode then do
    let c := o.override c
    if o.check then Command.check c
    if o.old then Command.generate c .legacy o.tree
    if o.new then Command.generate c .enhanced o.tree
    if o.clean then Command.clean c
  else Command.print (Usage.help ++ "\n")

end Options

/-- How a program ends. -/
structure Outcome where
  code : Nat
  output : String
  errors : String
  files : FileSystem
  deriving Inhabited

namespace Program

/-- What of the log is written, and what is wrong with the filter. What the environment says counts
first. -/
def logFilter (environment : String → Option String) (verbose : Bool) :
    LogFilter × List FilterError :=
  match environment "RUST_LOG" with
  | none => (.upTo (if verbose then .debug else .info), [])
  | some s => LogFilter.ofText s

/-- The variables of the environment that mean something. -/
def environmentNames : List String := "RUST_LOG" :: "RUST_LOG_STYLE" :: Config.environmentNames

/-- The paths that a run may read or write. -/
def touched (args : List RawText) (environment : String → Option String) : List Path :=
  match Options.read (Argument.normalize args) with
  | .error _ => []
  | .ok o =>
    let c := o.override (Config.ofEnvironment environment)
    let ofVariant (v : Variant) : List Path :=
      [Path.join (c.outputDir v) (.text "output.txt"),
        Path.join (c.outputDir v) (.text (c.moduleName ++ ".json")),
        Path.join (c.outputDir v) (.text "summary.md"), c.generatedSource v]
    c.dumpPath :: (ofVariant .legacy ++ ofVariant .enhanced)

def refuse (r : Refusal) (files : FileSystem) : Outcome :=
  match r with
  | .help => { code := r.code, output := Usage.help, errors := "", files := files }
  | .version => { code := r.code, output := Usage.version, errors := "", files := files }
  | _ => { code := r.code, output := "", errors := "", files := files }

/-- Nothing comes out if a graph leads to a number without a slot, which none of a dump does. -/
def run (args : List RawText) (environment : String → Option String) (files : FileSystem) :
    Option Outcome :=
  match Options.read (Argument.normalize args) with
  | .error r => some (refuse r files)
  | .ok o => do
    let (filter, errors) := logFilter environment o.verbose
    let world : World := {
      tee := { files := files, errors := String.join (errors.map FilterError.warning) }
      filter := filter
      keepsControls := environment "RUST_LOG_STYLE" = some "always" }
    let (result, w) ← o.execute (Config.ofEnvironment environment) world
    return match result with
      | .ok _ =>
        { code := 0, output := w.output, errors := w.tee.errors, files := w.tee.files }
      | .error f =>
        { code := 1, output := w.output, errors := w.tee.errors ++ f.report
          files := w.tee.files }

end Program

end Bindery

import Bindery.Command.Run
import Bindery.Graph.Listing
import Bindery.Graph.Stored
import Bindery.Json.Printer
import Bindery.Patch.Decoration
import Bindery.Patch.Replacement
import Bindery.Summary

/-!
# Modes of the program

`generate` runs the pipeline and writes what it made, `check` only reports what each pass would do,
`clean` patches the sources that were emitted.
-/

namespace Bindery.Command

/-- What the emitter gets: the configuration and the transformed graph. -/
def surface? (c : Config) (v : Variant) (g : Graph) : Option Json := do
  return .object [("config", ← c.toJson?), ("variant", .string v.tag), ("graph", g.toJson)]

def trimmedEnd (s : String) : String := String.ofList (Text.trimEnd s.toList)

/-- What `generate` does while its log is captured. -/
def generateInto (dir : Path) (c : Config) (v : Variant) (tree : Bool) : Command Unit := do
  log .commands .info "Code generation started."
  log .commands .info ("Variant '" ++ v.label ++ "' into " ++ dir.shown)
  let run ← (Pipeline.standard v).execute c
  let graphPath := Path.join dir (.text (c.moduleName ++ ".json"))
  match surface? c v run.graph with
  | none => fail { cause := .unstorable }
  | some x => writeFile graphPath x.pretty
  log .commands .info ("Wrote " ++ graphPath.shown)
  let summaryPath := Path.join dir (.text "summary.md")
  let summary ← ask (RunSummary.collect? run.graph run.report c)
  writeFile summaryPath summary.markdown
  log .commands .info ("Wrote " ++ summaryPath.shown)
  if tree then
    log .commands .info ("Transformed declarations:\n" ++ trimmedEnd (← ask run.graph.listing?))
  log .commands .info "Code generation finished."

/-- Runs the pipeline of a variant, and writes graph, summary and log into its directory. -/
def generate (c : Config) (v : Variant) (tree : Bool) : Command Unit := do
  let dir := c.outputDir v
  attempting ("Failed to create output directory " ++ dir.shown) (makeDirectories dir)
  let guard ← attempting ("Failed to create the run log in " ++ dir.shown)
    (capture (Path.join dir (.text "output.txt")))
  releasing guard (generateInto dir c v tree)

/-- Decorates and cleans the source at a path, and tells whether there is one. -/
def cleanupFile (path : Path) : Command Bool := do
  if ← inspect (·.exists? path) then
    let text ← attempting ("Failed to read " ++ path.shown) do
      ofExcept .file (← inspect (·.readText path))
    let decorated := Decoration.decorate text.toList
    (Replacement.hitLog Replacement.cleanup decorated).forM logLine
    writeFile path (String.ofList (Replacement.applyAll Replacement.cleanup decorated))
    log .patches .info ("Cleaned up " ++ path.shown)
    return true
  else
    log .patches .debug ("Skipping cleanup of missing " ++ path.shown)
    return false

/-- Patches the emitted sources of both variants. -/
def clean (c : Config) : Command Unit :=
  [Variant.enhanced, Variant.legacy].forM fun v => do
    let source := c.generatedSource v
    if !(← cleanupFile source) then log .commands .info ("No " ++ source.shown ++ " to clean up")

/-- A name and a number in columns. -/
def reportLine (name : String) (n : Nat) : String :=
  let digits := toString n
  "  " ++ name ++ String.ofList (List.replicate (24 - name.length) ' ') ++ " " ++
    String.ofList (List.replicate (5 - digits.length) ' ') ++ digits ++ "\n"

/-- Runs the pipelines of both variants and prints their reports. -/
def check (c : Config) : Command Unit := do
  [Variant.legacy, Variant.enhanced].forM fun v => do
    let run ← attempting ("Rule check failed for the " ++ v.label ++ " variant")
      ((Pipeline.standard v).execute c)
    print (v.directory ++ " (" ++ c.dumpPath.shown ++ ")\n")
    run.report.passes.forM fun p => print (reportLine p.name p.changes)
    print (reportLine "synthesized" run.report.synthesized)
  print "All rule tables resolved.\n"

end Bindery.Command

import Bindery.Command.World
import Bindery.Config
import Bindery.Dump.Load
import Bindery.Pipeline.Basic
import Bindery.Text.Quoted

/-!
# Runs over a dump

`Pipeline.execute` loads the dump that a configuration names and runs a pipeline on its graph.
-/

namespace Bindery

/-- A transformed graph, and what each pass did to it. -/
structure PipelineRun where
  graph : Graph
  report : PipelineReport
  deriving Inhabited

namespace Graph

/-- The graph of the dump at a path. -/
def ofFile (files : FileSystem) (path : Path) : Except Dump.LoadError Graph :=
  match files.readText path with
  | .error e => .error (.unreadable path.shown e)
  | .ok text => ofText path.shown text

end Graph

namespace Command

def loadDump (c : Config) : Command Graph := do
  log .toolchain .info
    ("Parsing module '" ++ c.moduleName ++ "' headers " ++ Text.quotedList c.headers ++
      " with defines " ++ Text.quotedList c.defines ++ " from " ++ c.dumpPath.shown)
  let g ← ofExcept .load (← inspect (Graph.ofFile · c.dumpPath))
  let live ← ask g.live?
  log .toolchain .info ("Parsed " ++ toString g.units.length ++ " translation units, " ++
    toString live.length ++ " declarations")
  return g

end Command

/-- Loads the dump and runs the pipeline for the main unit. -/
def Pipeline.execute (p : Pipeline) (c : Config) : Command PipelineRun := do
  let g ← Command.loadDump c
  let (synthesized, work) ← Command.runStep g (p.transform c.primaryHeader)
  return {
    graph := work.graph
    report := { variant := p.variant, passes := work.passes, synthesized := synthesized } }

end Bindery

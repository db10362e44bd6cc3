/-
  BuildGraph.Script.Session: performing the steps of a script one at a time.

  Between two steps nothing is under way. A step is performed with all it gives rise to; when it
  fails, the next one goes on with what it left.
-/

import BuildGraph.Script.Machine

namespace BuildGraph

/-- A workspace with its plugins, between two steps. -/
structure Session where
  workspace : Workspace
  plugins : Plugins := {}

/-- How a step went: its answer or error, the size of the project after it, and the answers of the steps inside
    it. -/
structure StepReport where
  result : Except ConfigError Answer
  counts : List Nat
  events : List Answer := []

namespace Session

def start (p : Project) : Session := { workspace := { project := p } }

/-- A machine that has a step to do. -/
def machine (s : Session) (step : Step) : Machine :=
  { work := [.step false step], workspace := s.workspace, plugins := s.plugins }

/-- Performs a step and all it gives rise to. -/
def perform (s : Session) (step : Step) : StepReport × Session :=
  match step with
  | .act a =>
    match a.run s.plugins s.workspace with
    | .ok answer w => (⟨.ok answer, w.project.counts, []⟩, { s with workspace := w })
    | .error e w => (⟨.error e, w.project.counts, []⟩, { s with workspace := w })
  | step =>
    let m := (s.machine step).finish
    let result := match m.failure with
      | none => .ok .ok
      | some e => .error e
    (⟨result, m.workspace.project.counts, m.events⟩, ⟨m.workspace, m.plugins⟩)

/-- Performs steps one after another, also after one that failed. -/
def performAll : List Step → Session → List StepReport × Session
  | [], s => ([], s)
  | step :: steps, s =>
    let (report, s) := s.perform step
    let (reports, s) := performAll steps s
    (report :: reports, s)

end Session

end BuildGraph

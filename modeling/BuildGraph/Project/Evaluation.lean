/-
  BuildGraph.Project.Evaluation: realizing tasks and computing lazy values.

  Realizing a task runs its configurators on its body, once; a configurator may ask for a lazy
  value, and computing a lazy value may realize a task. What is under way may not be asked for
  again: a value that depends on itself is an error. So every value asked for in the course of
  computing another is a new one, and the depth of such a chain is at most the number of lazy
  values.
-/

import BuildGraph.Project.Basic

namespace BuildGraph

/-- What may be under way while something else is computed. -/
inductive Busy where
  | provider (id : ProviderId)
  | task (name : String)
  deriving DecidableEq, Repr

namespace Configurator

/-- The text found at a source, lazy values computed by `ask`. -/
def readText (ask : ProviderId → ConfigM String) : TextSource → ConfigM String
  | .property id => return (← get).property id
  | .provider id => ask id

/-- Runs a configurator on a body of its type, lazy values computed by `ask`. -/
def run (ask : ProviderId → ConfigM String) (body : TaskBody) : Configurator → ConfigM TaskBody
  | .change c => return c.apply body
  | .compileFrom unit => do
    match body, (← get).sourceSets.units[unit]? with
    | .javaCompile t, some s =>
      return .javaCompile { t with classpath := s.compileClasspath, destination := s.output.classesDirs }
    | _, _ => return body
  | .resourcesFrom unit => do
    match body, (← get).sourceSets.units[unit]? with
    | .processResources t, some s => return .processResources { t with destination := some s.output.resourcesDir }
    | _, _ => return body
  | .logFrom type source => do
    match body with
    | .custom other t =>
      if type = other then return .custom other { t with log := t.log ++ [← readText ask source] }
      return body
    | _ => return body

end Configurator

namespace ConfigM

/-- Realizes the task called `name` unless it is realized, and gives its body. -/
def realizeWith (ask : ProviderId → ConfigM String) (name : String) : ConfigM TaskBody := do
  let task ← ofExcept ((← get).tasks.get name)
  if task.realized then return task.body
  modify fun p => { p with tasks := p.tasks.update name fun t => { t with realized := true, pending := [] } }
  let body ← task.pending.foldlM (Configurator.run ask) task.body
  modify fun p => { p with tasks := p.tasks.update name fun t => { t with body := body } }
  return body

/-- Keeps the value of a lazy value that was just computed. -/
def resolve (id : ProviderId) (value : String) : ConfigM Unit :=
  modify fun p =>
    { p with providers := p.providers.modify id fun c => { c with value := some value, runs := c.runs + 1 } }

/-- Runs a thunk while `busy` is under way, lazy values computed by `ask`. -/
def runThunk (ask : List Busy → ProviderId → ConfigM String) (busy : List Busy) (runs : Nat) : Thunk → ConfigM String
  | .compute f => return f (runs + 1)
  | .property id => return (← get).property id
  | .group => return (← get).group
  | .location l => return ((← get).layout.resolve l).text
  | .map source f => return f (← ask busy source)
  | .fromTask task read => do
    if Busy.task task ∈ busy then throw .selfDependentValue
    let busy := .task task :: busy
    match read (← realizeWith (ask busy) task) with
    | .text value => return value
    | .provider id => ask busy id

/-- The value with number `id`, computed now if it was never asked for, at most `depth` deep. -/
def evaluateWith : Nat → List Busy → ProviderId → ConfigM String
  | 0, _, _ => throw .selfDependentValue
  | depth + 1, busy, id => do
    match (← get).providers[id]? with
    | none => throw .selfDependentValue
    | some cell =>
      match cell.value with
      | some value => return value
      | none =>
        if Busy.provider id ∈ busy then throw .selfDependentValue
        let value ← runThunk (evaluateWith depth) (.provider id :: busy) cell.runs cell.thunk
        resolve id value
        return value

/-- The value with number `id`, computed now if it was never asked for, while `busy` is under way. -/
def evaluateBusy (busy : List Busy) (id : ProviderId) : ConfigM String := do
  evaluateWith ((← get).providers.length + 1) busy id

/-- The value with number `id`, computed now if it was never asked for. -/
def evaluate (id : ProviderId) : ConfigM String := evaluateBusy [] id

/-- Realizes the task called `name` unless it is realized, and gives its body. -/
def realize (name : String) : ConfigM TaskBody := realizeWith (evaluateBusy [.task name]) name

/-- Submits configurators to the task called `name`: they run at once if it is realized, and wait for its
    realization otherwise. -/
def configure (name : String) (configurators : List Configurator) : ConfigM Unit := do
  let task ← ofExcept ((← get).tasks.get name)
  if task.realized then
    let body ← configurators.foldlM (Configurator.run (evaluateBusy [.task name])) task.body
    modify fun p => { p with tasks := p.tasks.update name fun t => { t with body := body } }
  else
    modify fun p =>
      { p with tasks := p.tasks.update name fun t => { t with pending := t.pending ++ configurators } }

/-- Realizes a task and checks that it has its inputs. -/
def realizeChecked (name : String) : ConfigM Unit := do
  match (← realize name).missingInput with
  | some property => throw (.missingTaskInput name property)
  | none => return ()

/-- The names of the tasks in an order in which each follows all it depends on. -/
def executionOrder : ConfigM (List String) := do
  match (← get).tasks.graph.topologicalSort with
  | .ok order => return order
  | .error name => throw (.taskCycle name)

/-- Realizes every task in order of registration, checking the inputs of each before the next, then orders
    them. -/
def finalize : ConfigM (List String) := do
  (← get).tasks.names.forM realizeChecked
  executionOrder

end ConfigM

end BuildGraph

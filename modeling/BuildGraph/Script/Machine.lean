/-
  BuildGraph.Script.Machine: running scripts, with plugins and the handlers that wait for them.

  A plugin is applied at most once: it counts as applied from before its body runs, and after the
  body every handler that waits for it runs, in the order they were registered. A handler
  registered for an applied plugin runs right away. A failing step ends everything under way, up
  to the innermost attempt; the handlers taken for it are gone, and what was done stays.

  What is still to be done is a list of work, worked off from the front. Every step and every
  handler is worked off at most once, so the work under way and the work waiting together grow
  smaller with each round.

  - `Machine.weight_next_lt`: a round takes at least one from the weight.
  - `Machine.finish_work`: as many rounds as the weight work everything off.
-/

import BuildGraph.Script.Step

namespace BuildGraph

/-- A script to be run once a plugin is applied. -/
structure Handler where
  /-- How many handlers were registered before it. -/
  ticket : Nat
  reported : Bool
  body : List Step

/-- The plugins of a project: those applied, and the handlers waiting for others, oldest first. -/
structure Plugins where
  applied : List PluginId := []
  waiting : List (PluginId × Handler) := []
  /-- How many handlers were ever registered. -/
  registered : Nat := 0

namespace Plugins

def isApplied (p : Plugins) (id : PluginId) : Bool := p.applied.contains id

/-- The handlers waiting for `id`. -/
def waitingFor (p : Plugins) (id : PluginId) : List Handler := (p.waiting.filter (·.1 == id)).map (·.2)

/-- How many handlers wait for `id`. -/
def pending (p : Plugins) (id : PluginId) : Nat := (p.waitingFor id).length

def markApplied (p : Plugins) (id : PluginId) : Plugins := { p with applied := p.applied ++ [id] }

/-- Takes away the handlers waiting for `id`. -/
def dismiss (p : Plugins) (id : PluginId) : Plugins := { p with waiting := p.waiting.filter (·.1 != id) }

/-- The next handler to be registered. -/
def handler (p : Plugins) (reported : Bool) (body : List Step) : Handler := ⟨p.registered, reported, body⟩

/-- Lets a handler wait for `id`. -/
def enqueue (p : Plugins) (id : PluginId) (h : Handler) : Plugins := { p with waiting := p.waiting ++ [(id, h)] }

/-- Counts one more handler. -/
def countHandler (p : Plugins) : Plugins := { p with registered := p.registered + 1 }

end Plugins

/-- Runs an action. -/
def Action.run (plugins : Plugins) : Action → ScriptM Answer
  | .project a => ScriptM.runProject a
  | .sourceSet a => ScriptM.runSourceSet a
  | .configuration a => ScriptM.runConfiguration a
  | .task a => ScriptM.runTask a
  | .value a => ScriptM.runValue a
  | .property a => ScriptM.runProperty a
  | .processing a => ScriptM.runProcessing a
  | .plugin id => return .plugin (plugins.isApplied id) (plugins.pending id)

/-- Something still to be done. -/
inductive Work where
  | step (reported : Bool) (s : Step)
  /-- Start a handler. -/
  | handler (h : Handler)
  /-- Take the handlers waiting for a plugin whose body has run. -/
  | release (id : PluginId)
  /-- Answer a step whose inner steps have run. -/
  | answer (reported : Bool)
  /-- Answer an attempt that went well. -/
  | attempted (reported : Bool)

/-- A script under way. -/
structure Machine where
  work : List Work
  workspace : Workspace
  plugins : Plugins
  /-- The answers reported so far. -/
  events : List Answer := []
  failure : Option ConfigError := none

namespace Machine

def report (m : Machine) (reported : Bool) (a : Answer) : Machine :=
  if reported then { m with events := m.events ++ [a] } else m

/-- The steps of a script as work. -/
def workOf (reported : Bool) (body : List Step) : List Work := body.map (.step reported)

/-- What remains to be done after a failure: all that follows the innermost attempt under way. With it comes
    whether the attempt is to be answered. -/
def recover : List Work → Option (Bool × List Work)
  | [] => none
  | .attempted reported :: rest => some (reported, rest)
  | _ :: rest => recover rest

/-- Goes on after a failure, `rest` being what would have remained to be done. -/
def fail (m : Machine) (e : ConfigError) (rest : List Work) : Machine :=
  match recover rest with
  | some (reported, rest) => { m with work := rest }.report reported (.flag false)
  | none => { m with work := [], failure := some e }

/-- Runs an action, `rest` being what remains to be done. -/
def act (m : Machine) (reported : Bool) (a : Action) (rest : List Work) : Machine :=
  match a.run m.plugins m.workspace with
  | .ok answer w => { m with work := rest, workspace := w }.report reported answer
  | .error e w => { m with workspace := w }.fail e rest

/-- Does a piece of work, `rest` being what remains to be done. -/
def perform (m : Machine) (w : Work) (rest : List Work) : Machine :=
  match w with
  | .step reported (.act a) => m.act reported a rest
  | .step reported (.apply id inner body) =>
    if m.plugins.isApplied id then { m with work := .answer reported :: rest }
    else { m with
      work := workOf inner body ++ .release id :: .answer reported :: rest
      plugins := m.plugins.markApplied id }
  | .step reported (.withPlugin id inner body) =>
    let h := m.plugins.handler inner body
    if m.plugins.isApplied id then
      { m with work := .handler h :: .answer reported :: rest, plugins := m.plugins.countHandler }
    else { m with work := .answer reported :: rest, plugins := (m.plugins.enqueue id h).countHandler }
  | .step reported (.attempt inner body) => { m with work := workOf inner body ++ .attempted reported :: rest }
  | .handler h => { m with work := workOf h.reported h.body ++ rest }
  | .release id =>
    { m with
      work := (m.plugins.waitingFor id).map .handler ++ rest
      plugins := m.plugins.dismiss id }
  | .answer reported => { m with work := rest }.report reported .ok
  | .attempted reported => { m with work := rest }.report reported (.flag true)

/-- One round: the first piece of work is done. -/
def next (m : Machine) : Machine :=
  match m.work with
  | [] => m
  | w :: rest => m.perform w rest

/-- Up to `n` rounds. -/
def run : Nat → Machine → Machine
  | 0, m => m
  | n + 1, m => run n m.next

end Machine

mutual

/-- How much work a step can cause. -/
def Step.weight : Step → Nat
  | .act _ => 1
  | .apply _ _ body => 3 + Step.weights body
  | .withPlugin _ _ body => 3 + Step.weights body
  | .attempt _ body => 2 + Step.weights body

def Step.weights : List Step → Nat
  | [] => 0
  | s :: rest => s.weight + Step.weights rest

end

def Work.weight : Work → Nat
  | .step _ s => s.weight
  | .handler h => 1 + Step.weights h.body
  | .release _ => 1
  | .answer _ => 1
  | .attempted _ => 1

namespace Machine

def workWeight : List Work → Nat
  | [] => 0
  | w :: rest => w.weight + workWeight rest

/-- The work of the handlers in a queue. -/
def waitingWeight : List (PluginId × Handler) → Nat
  | [] => 0
  | e :: rest => 1 + Step.weights e.2.body + waitingWeight rest

/-- How many rounds the machine can go on for: the work before it, and that of all waiting handlers. -/
def weight (m : Machine) : Nat := workWeight m.work + waitingWeight m.plugins.waiting

/-- Works everything off. -/
def finish (m : Machine) : Machine := m.run m.weight

/-! ## Every script comes to an end -/

@[simp] theorem workWeight_nil : workWeight [] = 0 := rfl

@[simp] theorem workWeight_cons (w : Work) (ws : List Work) : workWeight (w :: ws) = w.weight + workWeight ws := rfl

@[simp] theorem workWeight_append (ws vs : List Work) : workWeight (ws ++ vs) = workWeight ws + workWeight vs := by
  induction ws with
  | nil => simp
  | cons w rest ih => simp [ih, Nat.add_assoc]

theorem waitingWeight_append (xs ys : List (PluginId × Handler)) :
    waitingWeight (xs ++ ys) = waitingWeight xs + waitingWeight ys := by
  induction xs with
  | nil => simp [waitingWeight]
  | cons e rest ih => simp [waitingWeight, ih, Nat.add_assoc]

@[simp] theorem workWeight_workOf (reported : Bool) (body : List Step) :
    workWeight (workOf reported body) = Step.weights body := by
  induction body with
  | nil => rfl
  | cons s rest ih =>
    have h : workOf reported (s :: rest) = .step reported s :: workOf reported rest := rfl
    simp [h, ih, Work.weight, Step.weights]

/-- What is waiting is what waits for `id` and what waits for another plugin. -/
theorem waitingWeight_split (waiting : List (PluginId × Handler)) (id : PluginId) :
    workWeight (((waiting.filter (·.1 == id)).map (·.2)).map .handler) + waitingWeight (waiting.filter (·.1 != id))
      = waitingWeight waiting := by
  induction waiting with
  | nil => rfl
  | cons e rest ih =>
    by_cases h : e.1 = id
    · simp [h, waitingWeight, Work.weight] at ih ⊢
      omega
    · simp [h, waitingWeight] at ih ⊢
      omega

theorem workWeight_recover_le {ws vs : List Work} {reported : Bool} (h : recover ws = some (reported, vs)) :
    workWeight vs ≤ workWeight ws := by
  induction ws with
  | nil => cases h
  | cons w rest ih =>
    rw [workWeight_cons]
    cases w with
    | attempted r =>
      cases h
      omega
    | _ =>
      have := ih h
      omega

theorem weight_fail_le (m : Machine) (e : ConfigError) (rest : List Work) :
    (m.fail e rest).weight ≤ workWeight rest + waitingWeight m.plugins.waiting := by
  unfold fail report
  split
  · rename_i h
    have := workWeight_recover_le h
    split <;> simp only [weight] <;> omega
  · simp [weight]

theorem weight_act_le (m : Machine) (reported : Bool) (a : Action) (rest : List Work) :
    (m.act reported a rest).weight ≤ workWeight rest + waitingWeight m.plugins.waiting := by
  unfold act report
  split
  · split <;> simp [weight]
  · exact weight_fail_le _ _ rest

theorem weight_perform_lt (m : Machine) (w : Work) (rest : List Work) (h : m.work = w :: rest) :
    (m.perform w rest).weight < m.weight := by
  have hm : m.weight = w.weight + workWeight rest + waitingWeight m.plugins.waiting := by simp [weight, h]
  cases w with
  | step reported s =>
    cases s with
    | act a =>
      have := weight_act_le m reported a rest
      simp only [perform, Work.weight, Step.weight] at hm ⊢
      omega
    | apply id inner body =>
      simp only [perform]
      split <;> simp [weight, Work.weight, Step.weight, Plugins.markApplied] at hm ⊢ <;> omega
    | withPlugin id inner body =>
      simp only [perform]
      split
      · simp [weight, Work.weight, Step.weight, Plugins.countHandler, Plugins.handler] at hm ⊢
        omega
      · simp [weight, Work.weight, Step.weight, Plugins.countHandler, Plugins.handler, Plugins.enqueue,
          waitingWeight, waitingWeight_append] at hm ⊢
        omega
    | attempt inner body => simp [perform, weight, Work.weight, Step.weight] at hm ⊢; omega
  | handler h => simp [perform, weight, Work.weight] at hm ⊢; omega
  | release id =>
    have := waitingWeight_split m.plugins.waiting id
    simp [perform, weight, Work.weight, Plugins.waitingFor, Plugins.dismiss] at this hm ⊢
    omega
  | answer reported =>
    simp only [perform, report, Work.weight] at hm ⊢
    split <;> simp [weight] at hm ⊢ <;> omega
  | attempted reported =>
    simp only [perform, report, Work.weight] at hm ⊢
    split <;> simp [weight] at hm ⊢ <;> omega

theorem weight_next_lt (m : Machine) (h : m.work ≠ []) : m.next.weight < m.weight := by
  cases hw : m.work with
  | nil => exact absurd hw h
  | cons w rest => simpa [next, hw] using weight_perform_lt m w rest hw

theorem run_of_work_nil (n : Nat) (m : Machine) (h : m.work = []) : m.run n = m := by
  induction n with
  | zero => rfl
  | succ n ih =>
    have : m.next = m := by simp [next, h]
    rw [run, this, ih]

theorem run_work (n : Nat) (m : Machine) (h : m.weight ≤ n) : (m.run n).work = [] := by
  induction n generalizing m with
  | zero =>
    by_cases hw : m.work = []
    · exact hw
    · have := weight_next_lt m hw
      omega
  | succ n ih =>
    by_cases hw : m.work = []
    · rw [run_of_work_nil _ m hw, hw]
    · have := weight_next_lt m hw
      exact ih m.next (by omega)

theorem finish_work (m : Machine) : m.finish.work = [] := run_work m.weight m (Nat.le_refl _)

end Machine

end BuildGraph

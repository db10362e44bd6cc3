/-
  BuildGraph.Proofs.Script.Termination: every script comes to its end.

  To apply a plugin is to run scripts that are not part of the call: handlers that were left in the project
  before, by whatever script, and that may apply further plugins and leave further handlers. It ends all
  the same since nothing is done twice. A script that stands somewhere in a step is run once or becomes one
  handler, and a handler is run once. So the calls yet to be made and the handlers that wait grow fewer
  together.

  - `Session.ends`: every call has an execution, whatever waits in the project.
  - `Session.executesEach_iff`: steps that are performed one after another have one execution, and it ends as
    the session says.
  - `Turn.balanced`: a turn uses up the scripts and the handlers it deals with.
  - `Session.comes_to_an_end`: so steps come to their end, each script having been used at most once, and
    each handler that waited or was made having been run at most once.
-/

import Mathlib.Algebra.BigOperators.Group.Multiset.Basic
import Mathlib.Data.Multiset.OrderedMonoid
import Mathlib.Tactic.Abel
import BuildGraph.Proofs.Script.Execution

namespace BuildGraph

open Machine

/-! ## Every call has an execution -/

/-- How many rounds a call can take. -/
def Call.weight : Call → Nat
  | .step s => s.weight
  | .script body => Step.weights body
  | .handlers hs => workWeight (hs.map .handler)

theorem Call.workWeight_before (c : Call) (reported : Bool) : workWeight (c.before reported []) = c.weight := by
  cases c with
  | step s => rfl
  | script body => rw [before, List.append_nil, workWeight_workOf, weight]
  | handlers hs => rw [before, List.append_nil, weight]

theorem Machine.weight_run_le (n : Nat) (m : Machine) : (m.run n).weight ≤ m.weight := by
  induction n generalizing m with
  | zero => exact Nat.le_refl _
  | succ n ih =>
    refine (ih m.next).trans ?_
    by_cases hwork : m.work = []
    · rw [next, hwork]
    · exact (m.weight_next_lt hwork).le

/-- What waits after a call is not more than the call and what waited before. -/
theorem Executes.waitingWeight_le {s t : Session} {c : Call} {log : List ScriptUse} (h : Executes s c log t none) :
    waitingWeight t.plugins.waiting ≤ c.weight + waitingWeight s.plugins.waiting := by
  let m : Machine := { work := c.before false [], workspace := s.workspace, plugins := s.plugins }
  obtain ⟨n, m', -, hrun, rfl, -⟩ := h.returns (m := m) rfl false rfl
  have hle := m.weight_run_le n
  rw [hrun, Machine.weight, Machine.weight, c.workWeight_before] at hle
  show waitingWeight m'.plugins.waiting ≤ c.weight + waitingWeight m.plugins.waiting
  simpa [resume] using hle

/-- The call comes to an end. -/
def Session.Ends (s : Session) (c : Call) : Prop := ∃ log t r, Executes s c log t r

namespace Session

section

variable {n : Nat}

/-- A step ends if the calls do that it makes: each takes fewer rounds. -/
theorem ends_step (hcall : ∀ (s : Session) (c : Call), c.weight + waitingWeight s.plugins.waiting < n → s.Ends c)
    {s : Session} {x : Step} (hn : x.weight + waitingWeight s.plugins.waiting ≤ n) : s.Ends (.step x) := by
  cases x with
  | act a =>
    cases hrun : a.run s.plugins s.workspace with
    | ok answer w => exact ⟨_, _, _, .acted hrun⟩
    | error e w => exact ⟨_, _, _, .failed hrun⟩
  | apply id inner body =>
    rw [Step.weight] at hn
    by_cases hid : id ∈ s.plugins.applied
    · exact ⟨_, _, _, .appliedAgain hid⟩
    · have hmarked : (Call.script body).weight + waitingWeight (s.plugins.markApplied id).waiting < n := by
        show Step.weights body + waitingWeight s.plugins.waiting < n
        omega
      obtain ⟨log, t, r, hbody⟩ := hcall { s with plugins := s.plugins.markApplied id } (.script body) hmarked
      cases r with
      | some e => exact ⟨_, _, _, .aborted hid hbody⟩
      | none =>
        -- what waits by now, the handlers to be run among it, was in the body or waited before
        have hsplit := waitingWeight_split t.plugins.waiting id
        have hle : waitingWeight t.plugins.waiting ≤ Step.weights body + waitingWeight s.plugins.waiting :=
          hbody.waitingWeight_le
        have htaken : (Call.handlers (t.plugins.waitingFor id)).weight
            + waitingWeight (t.plugins.dismiss id).waiting < n := by
          show workWeight ((t.plugins.waitingFor id).map .handler) + waitingWeight (t.plugins.dismiss id).waiting < n
          rw [Plugins.waitingFor, Plugins.dismiss, hsplit]
          omega
        obtain ⟨more, u, r, hhandlers⟩ :=
          hcall { t with plugins := t.plugins.dismiss id } (.handlers (t.plugins.waitingFor id)) htaken
        exact ⟨_, _, _, .applied hid hbody hhandlers⟩
  | withPlugin id inner body =>
    rw [Step.weight] at hn
    by_cases hid : id ∈ s.plugins.applied
    · have hcounted : (Call.handlers [s.plugins.handler inner body]).weight
          + waitingWeight s.plugins.countHandler.waiting < n := by
        show 1 + Step.weights body + 0 + waitingWeight s.plugins.waiting < n
        omega
      obtain ⟨log, t, r, hhandler⟩ := hcall { s with plugins := s.plugins.countHandler } _ hcounted
      exact ⟨_, _, _, .immediate hid hhandler⟩
    · exact ⟨_, _, _, .queued hid⟩
  | attempt inner body =>
    rw [Step.weight] at hn
    have hless : (Call.script body).weight + waitingWeight s.plugins.waiting < n := by
      show Step.weights body + waitingWeight s.plugins.waiting < n
      omega
    obtain ⟨log, t, r, hbody⟩ := hcall s (.script body) hless
    exact ⟨_, _, _, .attempted hbody⟩

/-- A script ends if its steps do. -/
theorem ends_script (hstep : ∀ {s : Session} {x : Step}, x.weight + waitingWeight s.plugins.waiting ≤ n → s.Ends (.step x))
    {s : Session} {body : List Step} (hn : Step.weights body + waitingWeight s.plugins.waiting ≤ n) :
    s.Ends (.script body) := by
  induction body generalizing s with
  | nil => exact ⟨_, _, _, .scriptDone⟩
  | cons x xs ih =>
    rw [Step.weights] at hn
    obtain ⟨log, t, r, hfirst⟩ := hstep (s := s) (x := x) (by omega)
    cases r with
    | some e => exact ⟨_, _, _, .scriptStops hfirst⟩
    | none =>
      have hle : waitingWeight t.plugins.waiting ≤ x.weight + waitingWeight s.plugins.waiting := hfirst.waitingWeight_le
      obtain ⟨more, u, r, hrest⟩ := ih (s := t) (by omega)
      exact ⟨_, _, _, .scriptGoesOn hfirst hrest⟩

/-- Handlers end if their bodies do. -/
theorem ends_handlers (hcall : ∀ (s : Session) (c : Call), c.weight + waitingWeight s.plugins.waiting < n → s.Ends c)
    {s : Session} {hs : List Handler} (hn : (Call.handlers hs).weight + waitingWeight s.plugins.waiting ≤ n) :
    s.Ends (.handlers hs) := by
  induction hs generalizing s with
  | nil => exact ⟨_, _, _, .handlersDone⟩
  | cons h hs ih =>
    have hweight : (Call.handlers (h :: hs)).weight = 1 + Step.weights h.body + (Call.handlers hs).weight := rfl
    have hless : (Call.script h.body).weight + waitingWeight s.plugins.waiting < n := by
      show Step.weights h.body + waitingWeight s.plugins.waiting < n
      omega
    obtain ⟨log, t, r, hfirst⟩ := hcall s (.script h.body) hless
    cases r with
    | some e => exact ⟨_, _, _, .handlersStop hfirst⟩
    | none =>
      have hle : waitingWeight t.plugins.waiting ≤ Step.weights h.body + waitingWeight s.plugins.waiting :=
        hfirst.waitingWeight_le
      obtain ⟨more, u, r, hrest⟩ := ih (s := t) (by omega)
      exact ⟨_, _, _, .handlersGoOn hfirst hrest⟩

end

/-- Every call comes to an end, whatever waits in the project. -/
theorem ends (s : Session) (c : Call) : s.Ends c := by
  induction hn : c.weight + waitingWeight s.plugins.waiting using Nat.strongRecOn generalizing s c with
  | ind n ih =>
    have hcall : ∀ (s : Session) (c : Call), c.weight + waitingWeight s.plugins.waiting < n → s.Ends c :=
      fun s c hless => ih _ hless s c rfl
    cases c with
    | step x => exact ends_step hcall hn.le
    | script body => exact ends_script (ends_step hcall) hn.le
    | handlers hs => exact ends_handlers hcall hn.le

/-- Steps that are performed one after another are executed, and there is no other execution of them. -/
theorem executesEach_iff {s t : Session} {steps : List Step} {log : List ScriptUse} {rs : List (Option ConfigError)} :
    s.ExecutesEach steps log rs t ↔
      log = told uses steps s ∧ rs = (performAll steps s).1.map StepReport.error? ∧ t = (performAll steps s).2 := by
  induction steps generalizing s log rs with
  | nil =>
    constructor
    · rintro ⟨⟩
      exact ⟨rfl, rfl, rfl⟩
    · rintro ⟨rfl, rfl, rfl⟩
      exact .nil
  | cons x xs ih =>
    constructor
    · intro h
      cases h with
      | cons hfirst hrest =>
        obtain ⟨rfl, rfl, rfl⟩ := executes_step hfirst
        obtain ⟨rfl, rfl, rfl⟩ := ih.mp hrest
        exact ⟨rfl, rfl, rfl⟩
    · rintro ⟨rfl, rfl, rfl⟩
      obtain ⟨log, t, r, hfirst⟩ := s.ends (.step x)
      obtain ⟨rfl, rfl, rfl⟩ := executes_step hfirst
      exact .cons hfirst (ih.mpr ⟨rfl, rfl, rfl⟩)

end Session

/-! ## Scripts and handlers -/

mutual

/-- The scripts that a step contains, with those inside them. -/
def Step.scripts : Step → Multiset (List Step)
  | .act _ => 0
  | .apply _ _ body => body ::ₘ Step.scriptsOf body
  | .withPlugin _ _ body => body ::ₘ Step.scriptsOf body
  | .attempt _ body => body ::ₘ Step.scriptsOf body

def Step.scriptsOf : List Step → Multiset (List Step)
  | [] => 0
  | s :: rest => s.scripts + Step.scriptsOf rest

end

/-- The scripts inside a piece of work. -/
def Work.scripts : Work → Multiset (List Step)
  | .step _ s => s.scripts
  | .handler h => Step.scriptsOf h.body
  | _ => 0

def Work.scriptsOf (ws : List Work) : Multiset (List Step) := (ws.map Work.scripts).sum

namespace Plugins

/-- The handlers that wait. -/
def handlers (ps : Plugins) : Multiset Handler := ↑(ps.waiting.map (·.2))

/-- The scripts inside the handlers that wait. -/
def scripts (ps : Plugins) : Multiset (List Step) := (ps.handlers.map fun h => Step.scriptsOf h.body).sum

variable (ps : Plugins) (id : PluginId) (h : Handler)

@[simp] theorem handlers_markApplied : (ps.markApplied id).handlers = ps.handlers := rfl

@[simp] theorem handlers_countHandler : ps.countHandler.handlers = ps.handlers := rfl

@[simp] theorem handlers_enqueue : (ps.enqueue id h).handlers = h ::ₘ ps.handlers := by
  simp [handlers, enqueue, ← Multiset.coe_add, add_comm]

/-- The handlers that are taken for a plugin and those that go on waiting are all that waited. -/
theorem handlers_dismiss : ↑(ps.waitingFor id) + (ps.dismiss id).handlers = ps.handlers :=
  Multiset.coe_eq_coe.mpr (Recorded.waiting_perm ps.waiting id)

@[simp] theorem scripts_markApplied : (ps.markApplied id).scripts = ps.scripts := rfl

@[simp] theorem scripts_countHandler : ps.countHandler.scripts = ps.scripts := rfl

@[simp] theorem scripts_enqueue : (ps.enqueue id h).scripts = Step.scriptsOf h.body + ps.scripts := by
  simp [scripts]

end Plugins

namespace Work

@[simp] theorem scriptsOf_nil : scriptsOf [] = 0 := rfl

@[simp] theorem scriptsOf_cons (w : Work) (ws : List Work) : scriptsOf (w :: ws) = w.scripts + scriptsOf ws := by
  simp [scriptsOf]

@[simp] theorem scriptsOf_append (ws vs : List Work) : scriptsOf (ws ++ vs) = scriptsOf ws + scriptsOf vs := by
  simp [scriptsOf]

@[simp] theorem scriptsOf_workOf (reported : Bool) (body : List Step) :
    scriptsOf (workOf reported body) = Step.scriptsOf body := by
  induction body with
  | nil => rfl
  | cons s rest ih =>
    have hwork : workOf reported (s :: rest) = .step reported s :: workOf reported rest := rfl
    rw [hwork, scriptsOf_cons, ih, Step.scriptsOf, scripts]

section

variable (ws : List Work)

@[simp] theorem handlers_nil : handlers [] = [] := rfl

@[simp] theorem handlers_step (reported : Bool) (s : Step) : handlers (.step reported s :: ws) = handlers ws := rfl

@[simp] theorem handlers_handler (h : Handler) : handlers (.handler h :: ws) = h :: handlers ws := rfl

@[simp] theorem handlers_release (id : PluginId) : handlers (.release id :: ws) = handlers ws := rfl

@[simp] theorem handlers_answer (reported : Bool) : handlers (.answer reported :: ws) = handlers ws := rfl

@[simp] theorem handlers_attempted (reported : Bool) : handlers (.attempted reported :: ws) = handlers ws := rfl

end

/-- The scripts inside the handlers that are taken for a plugin and inside those that go on waiting are all that waited. -/
theorem scriptsOf_release (ps : Plugins) (id : PluginId) :
    scriptsOf ((ps.waitingFor id).map .handler) + (ps.dismiss id).scripts = ps.scripts := by
  have htaken : scriptsOf ((ps.waitingFor id).map .handler) =
      ((ps.waitingFor id : Multiset Handler).map fun h => Step.scriptsOf h.body).sum := by
    rw [scriptsOf, List.map_map, Multiset.map_coe, Multiset.sum_coe]
    rfl
  rw [htaken, Plugins.scripts, ← Multiset.sum_add, ← Multiset.map_add, Plugins.handlers_dismiss, Plugins.scripts]

end Work

namespace ScriptUse

/-- The script that is run or becomes a handler. -/
def script : ScriptUse → Multiset (List Step)
  | .ran body => {body}
  | .kept h => {h.body}
  | .handled _ => 0

/-- The handler that is made. -/
def made : ScriptUse → Multiset Handler
  | .kept h => {h}
  | _ => 0

/-- The handler that is run. -/
def run : ScriptUse → Multiset Handler
  | .handled h => {h}
  | _ => 0

def scriptsUsed (log : List ScriptUse) : Multiset (List Step) := (log.map script).sum

def handlersMade (log : List ScriptUse) : Multiset Handler := (log.map made).sum

def handlersRun (log : List ScriptUse) : Multiset Handler := (log.map run).sum

/-- To become a handler is one use of a script. -/
theorem map_body_handlersMade_le (log : List ScriptUse) : (handlersMade log).map (·.body) ≤ scriptsUsed log := by
  induction log with
  | nil => exact le_rfl
  | cons u log ih =>
    have hfirst : u.made.map (·.body) ≤ u.script := by
      cases u with
      | kept h => simp [made, script]
      | _ => exact Multiset.zero_le _
    simpa [handlersMade, scriptsUsed] using add_le_add hfirst ih

end ScriptUse

open ScriptUse

/-! ## What is used up -/

/-- Between two states of a run, `log` being what was done with scripts: the scripts that were used and those that
    are left are among those there were, and the handlers that were run and those that are left are among those there
    were or that were made. -/
structure Balanced (log : List ScriptUse) (ps : Plugins) (ws : List Work) (qs : Plugins) (vs : List Work) : Prop where
  scripts : scriptsUsed log + (Work.scriptsOf vs + qs.scripts) ≤ Work.scriptsOf ws + ps.scripts
  handlers : handlersRun log + (Work.handlers vs + qs.handlers) ≤ handlersMade log + (Work.handlers ws + ps.handlers)

namespace Balanced

variable {log more : List ScriptUse} {ps qs rs : Plugins} {ws vs us : List Work}

theorem refl : Balanced [] ps ws ps ws where
  scripts := by simp [scriptsUsed]
  handlers := by simp [handlersRun, handlersMade]

theorem trans (h : Balanced log ps ws qs vs) (h' : Balanced more qs vs rs us) : Balanced (log ++ more) ps ws rs us where
  scripts := calc
    scriptsUsed (log ++ more) + (Work.scriptsOf us + rs.scripts)
      = scriptsUsed log + (scriptsUsed more + (Work.scriptsOf us + rs.scripts)) := by simp [scriptsUsed, add_assoc]
    _ ≤ scriptsUsed log + (Work.scriptsOf vs + qs.scripts) := add_le_add_right h'.scripts _
    _ ≤ Work.scriptsOf ws + ps.scripts := h.scripts
  handlers := calc
    handlersRun (log ++ more) + (Work.handlers us + rs.handlers)
      = handlersRun log + (handlersRun more + (Work.handlers us + rs.handlers)) := by simp [handlersRun, add_assoc]
    _ ≤ handlersRun log + (handlersMade more + (Work.handlers vs + qs.handlers)) := add_le_add_right h'.handlers _
    _ = handlersMade more + (handlersRun log + (Work.handlers vs + qs.handlers)) := add_left_comm ..
    _ ≤ handlersMade more + (handlersMade log + (Work.handlers ws + ps.handlers)) := add_le_add_right h.handlers _
    _ = handlersMade (log ++ more) + (Work.handlers ws + ps.handlers) := by
      simp [handlersMade, add_left_comm, add_assoc]

/-- What is not touched makes no difference. -/
theorem frame (h : Balanced log ps ws qs vs) (us : List Work) : Balanced log ps (ws ++ us) qs (vs ++ us) where
  scripts := calc
    scriptsUsed log + (Work.scriptsOf (vs ++ us) + qs.scripts)
      = scriptsUsed log + (Work.scriptsOf vs + qs.scripts) + Work.scriptsOf us := by
        rw [Work.scriptsOf_append]; abel
    _ ≤ Work.scriptsOf ws + ps.scripts + Work.scriptsOf us := add_le_add_left h.scripts _
    _ = Work.scriptsOf (ws ++ us) + ps.scripts := by rw [Work.scriptsOf_append]; abel
  handlers := calc
    handlersRun log + (↑(Work.handlers (vs ++ us)) + qs.handlers)
      = handlersRun log + (Work.handlers vs + qs.handlers) + Work.handlers us := by
        rw [Work.handlers_append, ← Multiset.coe_add]; abel
    _ ≤ handlersMade log + (Work.handlers ws + ps.handlers) + Work.handlers us := add_le_add_left h.handlers _
    _ = handlersMade log + (↑(Work.handlers (ws ++ us)) + ps.handlers) := by
        rw [Work.handlers_append, ← Multiset.coe_add]; abel

end Balanced

/-- A turn uses up what it does with scripts. -/
theorem Turn.balanced {ps qs : Plugins} {ws vs : List Work} {happening : List Happening}
    (ht : Turn ps ws happening qs vs) : Balanced (Work.uses ps ws) ps ws qs vs := by
  cases ht with
  | idle => exact .refl
  | acted =>
    constructor
    · simp [Work.scripts, Step.scripts, Work.uses, scriptsUsed]
    · simp [Work.uses, handlersRun, handlersMade]
  | @failed reported a rest left e hleft =>
    -- what the failure takes away is not used any more
    obtain ⟨before, rfl⟩ := hleft
    constructor
    · simp [Work.scripts, Step.scripts, Work.uses, scriptsUsed]
    · simpa [Work.uses, handlersRun, handlersMade] using (List.sublist_append_right ..).subperm
  | appliedAgain hid =>
    rw [Work.uses_apply_of_mem hid]
    constructor
    · simp [Work.scripts, scriptsUsed]
    · simp [handlersRun, handlersMade]
  | applied hid =>
    rw [Work.uses_apply_of_not_mem hid]
    constructor
    · simp [Work.scripts, Step.scripts, scriptsUsed, script]
    · simp [handlersRun, handlersMade, ScriptUse.run, made]
  | queued hid =>
    constructor
    · simp [Work.scripts, Step.scripts, Work.uses, scriptsUsed, script, Plugins.handler, add_left_comm, add_assoc]
    · simp [Work.uses, handlersRun, handlersMade, ScriptUse.run, made]
  | immediate hid =>
    constructor
    · simp [Work.scripts, Step.scripts, Work.uses, scriptsUsed, script, Plugins.handler]
    · simp [Work.uses, handlersRun, handlersMade, ScriptUse.run, made, ← Multiset.cons_coe]
  | attempt =>
    constructor
    · simp [Work.scripts, Step.scripts, Work.uses, scriptsUsed, script]
    · simp [Work.uses, handlersRun, handlersMade, ScriptUse.run, made]
  | started =>
    constructor
    · simp [Work.scripts, Work.uses, scriptsUsed, script]
    · simp [Work.uses, handlersRun, handlersMade, ScriptUse.run, made, ← Multiset.cons_coe]
  | @released id rest =>
    constructor
    · rw [← Work.scriptsOf_release ps id]
      simp [Work.scripts, Work.uses, scriptsUsed, add_left_comm, add_assoc]
    · rw [← ps.handlers_dismiss id]
      simp [Work.uses, handlersRun, handlersMade, ← Multiset.coe_add, add_left_comm, add_assoc]
  | answered =>
    constructor
    · simp [Work.scripts, Work.uses, scriptsUsed]
    · simp [Work.uses, handlersRun, handlersMade]
  | attempted =>
    constructor
    · simp [Work.scripts, Work.uses, scriptsUsed]
    · simp [Work.uses, handlersRun, handlersMade]

theorem Machine.run_balanced (n : Nat) (m : Machine) :
    Balanced (m.told uses n) m.plugins m.work (m.run n).plugins (m.run n).work := by
  induction n generalizing m with
  | zero => exact .refl
  | succ n ih => exact m.next_turn.balanced.trans (ih m.next)

namespace Session

/-- A step uses up its own scripts and those that wait. -/
theorem perform_balanced (s : Session) (x : Step) :
    Balanced ((s.machine x).told uses (s.machine x).weight) s.plugins [.step false x] (s.perform x).2.plugins [] :=
  perform_of_finish (P := fun ps ws _ => Balanced _ s.plugins [.step false x] ps ws) ((s.machine x).run_balanced _)

/-- Steps use up their own scripts and those that wait. -/
theorem performAll_balanced (steps : List Step) (s : Session) :
    Balanced (told uses steps s) s.plugins (workOf false steps) (performAll steps s).2.plugins [] := by
  induction steps generalizing s with
  | nil => exact .refl
  | cons x xs ih => exact ((perform_balanced s x).frame (workOf false xs)).trans (ih (s.perform x).2)

/-- Steps that are performed one after another come to their end, whatever the project is like and whatever handlers
    wait in it. They have an execution and only one, and the session reports how it ends.

    Of the scripts that stand in the steps and in the waiting handlers each is used at most once, to be run or to become
    a handler: what is left in the handlers that wait in the end was not used. So every handler that is made goes back
    to a script of its own. Each handler that waited or was made is run at most once, and not at all as long as it
    waits. -/
theorem comes_to_an_end (s : Session) (steps : List Step) :
    let log := told uses steps s
    let errors := (performAll steps s).1.map StepReport.error?
    let t := (performAll steps s).2
    (s.ExecutesEach steps log errors t ∧
      ∀ log' errors' u, s.ExecutesEach steps log' errors' u → log' = log ∧ errors' = errors ∧ u = t) ∧
    scriptsUsed log + t.plugins.scripts ≤ Step.scriptsOf steps + s.plugins.scripts ∧
    (handlersMade log).map (·.body) ≤ Step.scriptsOf steps + s.plugins.scripts ∧
    handlersRun log + t.plugins.handlers ≤ handlersMade log + s.plugins.handlers := by
  intro log errors t
  have hbalanced := performAll_balanced steps s
  have hscripts : scriptsUsed log + t.plugins.scripts ≤ Step.scriptsOf steps + s.plugins.scripts := by
    simpa using hbalanced.scripts
  refine ⟨⟨executesEach_iff.mpr ⟨rfl, rfl, rfl⟩, fun _ _ _ => executesEach_iff.mp⟩, hscripts, ?_, ?_⟩
  · exact (map_body_handlersMade_le log).trans ((Multiset.le_add_right ..).trans hscripts)
  · simpa using hbalanced.handlers

/-- Ahead-of-time processing consists of three scripts, its body and two that become handlers. -/
example : Plugin.aot.step.scripts = {Plugin.aot.body, Plugin.deriveSourceSets, Plugin.wireProcessing} := rfl

end Session

end BuildGraph

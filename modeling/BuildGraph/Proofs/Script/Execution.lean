/-
  BuildGraph.Proofs.Script.Execution: scripts as calls within calls.

  A machine works a script off round by round, from a flat list. Seen from within a script every step is a
  call that returns: to apply a plugin is to mark it, to run its body, to take the handlers that wait for
  it and to run them, each with all that it calls in turn. An error ends every call under way, up to the
  innermost attempt.

  `Executes` is this reading. It knows nothing of rounds and of weights, and an execution is a finite tree:
  a call that went on for ever would have none.

  - `Executes.returns`: a machine that has a call before it does what the execution says, and goes on with
    what follows the call, or with what follows the innermost attempt.
  - `Session.executes_step`: so a step can be executed in one way at most, the way it is performed.
-/

import BuildGraph.Proofs.Script.Conventional
import BuildGraph.Proofs.Script.History
import BuildGraph.Proofs.Script.Retention

namespace BuildGraph

open Machine

/-! ## What is done with scripts -/

/-- What is done with a script. -/
inductive ScriptUse where
  /-- It is run, as the body of a plugin or because it is to be attempted. -/
  | ran (body : List Step)
  /-- It becomes the handler `h`. -/
  | kept (h : Handler)
  /-- The handler `h` is run. -/
  | handled (h : Handler)

/-- What is done with scripts when the first piece of work is done. -/
def Work.uses (ps : Plugins) : List Work → List ScriptUse
  | .step _ (.apply id _ body) :: _ => if ps.isApplied id then [] else [.ran body]
  | .step _ (.withPlugin _ inner body) :: _ => [.kept (ps.handler inner body)]
  | .step _ (.attempt _ body) :: _ => [.ran body]
  | .handler h :: _ => [.handled h]
  | _ => []

section

variable {ps : Plugins} {id : PluginId} {reported inner : Bool} {body : List Step} {rest : List Work}

theorem Work.uses_apply_of_mem (hid : id ∈ ps.applied) : uses ps (.step reported (.apply id inner body) :: rest) = [] :=
  if_pos (Plugins.isApplied_iff.mpr hid)

theorem Work.uses_apply_of_not_mem (hid : id ∉ ps.applied) :
    uses ps (.step reported (.apply id inner body) :: rest) = [.ran body] :=
  if_neg (mt Plugins.isApplied_iff.mp hid)

end

/-- What is done with scripts in the next round. -/
def Machine.uses (m : Machine) : List ScriptUse := Work.uses m.plugins m.work

/-! ## Executions -/

/-- What can be called: a step, the steps of a script up to the first that fails, and handlers up to the first that
    fails. -/
inductive Call where
  | step (s : Step)
  | script (body : List Step)
  | handlers (hs : List Handler)

/-- The call, made in the first session, comes to an end and leaves the second. The list is what was done with scripts
    meanwhile, and the error is what the call ended with, if it failed. -/
inductive Executes : Session → Call → List ScriptUse → Session → Option ConfigError → Prop
  | acted {s : Session} {a : Action} {answer : Answer} {w : Workspace} :
    a.run s.plugins s.workspace = .ok answer w → Executes s (.step (.act a)) [] { s with workspace := w } none
  | failed {s : Session} {a : Action} {e : ConfigError} {w : Workspace} :
    a.run s.plugins s.workspace = .error e w → Executes s (.step (.act a)) [] { s with workspace := w } (some e)
  | appliedAgain {s : Session} {id : PluginId} {inner : Bool} {body : List Step} :
    id ∈ s.plugins.applied → Executes s (.step (.apply id inner body)) [] s none
  /-- The body fails. The handlers stay where they are. -/
  | aborted {s t : Session} {id : PluginId} {inner : Bool} {body : List Step} {log : List ScriptUse} {e : ConfigError} :
    id ∉ s.plugins.applied →
    Executes { s with plugins := s.plugins.markApplied id } (.script body) log t (some e) →
    Executes s (.step (.apply id inner body)) (.ran body :: log) t (some e)
  | applied {s t u : Session} {id : PluginId} {inner : Bool} {body : List Step} {log more : List ScriptUse}
    {r : Option ConfigError} : id ∉ s.plugins.applied →
    Executes { s with plugins := s.plugins.markApplied id } (.script body) log t none →
    Executes { t with plugins := t.plugins.dismiss id } (.handlers (t.plugins.waitingFor id)) more u r →
    Executes s (.step (.apply id inner body)) (.ran body :: (log ++ more)) u r
  | queued {s : Session} {id : PluginId} {inner : Bool} {body : List Step} : id ∉ s.plugins.applied →
    Executes s (.step (.withPlugin id inner body)) [.kept (s.plugins.handler inner body)]
      { s with plugins := (s.plugins.enqueue id (s.plugins.handler inner body)).countHandler } none
  | immediate {s t : Session} {id : PluginId} {inner : Bool} {body : List Step} {log : List ScriptUse}
    {r : Option ConfigError} : id ∈ s.plugins.applied →
    Executes { s with plugins := s.plugins.countHandler } (.handlers [s.plugins.handler inner body]) log t r →
    Executes s (.step (.withPlugin id inner body)) (.kept (s.plugins.handler inner body) :: log) t r
  /-- Whatever the attempt ends with, the call goes well. -/
  | attempted {s t : Session} {inner : Bool} {body : List Step} {log : List ScriptUse} {r : Option ConfigError} :
    Executes s (.script body) log t r → Executes s (.step (.attempt inner body)) (.ran body :: log) t none
  | scriptDone {s : Session} : Executes s (.script []) [] s none
  | scriptStops {s t : Session} {x : Step} {xs : List Step} {log : List ScriptUse} {e : ConfigError} :
    Executes s (.step x) log t (some e) → Executes s (.script (x :: xs)) log t (some e)
  | scriptGoesOn {s t u : Session} {x : Step} {xs : List Step} {log more : List ScriptUse} {r : Option ConfigError} :
    Executes s (.step x) log t none → Executes t (.script xs) more u r → Executes s (.script (x :: xs)) (log ++ more) u r
  | handlersDone {s : Session} : Executes s (.handlers []) [] s none
  /-- The handlers that are left are gone. -/
  | handlersStop {s t : Session} {h : Handler} {hs : List Handler} {log : List ScriptUse} {e : ConfigError} :
    Executes s (.script h.body) log t (some e) → Executes s (.handlers (h :: hs)) (.handled h :: log) t (some e)
  | handlersGoOn {s t u : Session} {h : Handler} {hs : List Handler} {log more : List ScriptUse}
    {r : Option ConfigError} : Executes s (.script h.body) log t none → Executes t (.handlers hs) more u r →
    Executes s (.handlers (h :: hs)) (.handled h :: (log ++ more)) u r

/-- Steps are executed one after another, each whatever the one before ended with. -/
inductive Session.ExecutesEach : Session → List Step → List ScriptUse → List (Option ConfigError) → Session → Prop
  | nil {s : Session} : ExecutesEach s [] [] [] s
  | cons {s t u : Session} {x : Step} {xs : List Step} {log more : List ScriptUse} {r : Option ConfigError}
    {rs : List (Option ConfigError)} : Executes s (.step x) log t r → ExecutesEach t xs more rs u →
    ExecutesEach s (x :: xs) (log ++ more) (r :: rs) u

/-! ## A machine follows an execution -/

/-- The work of a call, with `rest` to be done after it. -/
def Call.before (reported : Bool) (rest : List Work) : Call → List Work
  | .step s => .step reported s :: rest
  | .script body => workOf reported body ++ rest
  | .handlers hs => hs.map .handler ++ rest

namespace Machine

variable {m : Machine} {log more : List ScriptUse} {t u : Session} {r : Option ConfigError} {e : ConfigError}
  {ws rest : List Work}

/-- A machine goes on after a call that ended with `r`, `rest` being what remains to be done. -/
def resume (m : Machine) (r : Option ConfigError) (rest : List Work) : Machine :=
  match r with
  | none => { m with work := rest }
  | some e => m.fail e rest

/-- When nothing is left to do, nothing more is done with scripts. -/
theorem told_uses_of_work_nil (n : Nat) (h : m.work = []) : m.told uses n = [] := by
  induction n with
  | zero => rfl
  | succ n ih =>
    have hnext : m.next = m := by simp [next, h]
    have huses : m.uses = [] := by simp [uses, Work.uses, h]
    rw [told, hnext, huses, ih, List.append_nil]

/-- A failure goes past work that attempts nothing. -/
theorem recover_append_of_no_attempt (hws : ∀ reported, .attempted reported ∉ ws) : recover (ws ++ rest) = recover rest := by
  have hnone : recover ws = none := by
    induction ws with
    | nil => rfl
    | cons w ws ih =>
      cases w with
      | attempted reported => exact absurd (List.mem_cons_self ..) (hws reported)
      | _ => exact ih fun reported hmem => hws reported (List.mem_cons_of_mem _ hmem)
  rw [recover_append, hnone]

/-- The call that a machine has before it comes to its end after some rounds: it ended with `r`, `log` is what was done
    with scripts, `t` is what it left, and `rest` what remains to be done. -/
def Returns (m : Machine) (log : List ScriptUse) (t : Session) (r : Option ConfigError) (rest : List Work) : Prop :=
  ∃ n m', m.told uses n = log ∧ m.run n = resume m' r rest ∧ m'.session = t ∧ m'.failure = m.failure

theorem report_session (m : Machine) (reported : Bool) (a : Answer) : (m.report reported a).session = m.session := by
  cases reported <;> rfl

theorem report_failure (m : Machine) (reported : Bool) (a : Answer) : (m.report reported a).failure = m.failure := by
  cases reported <;> rfl

namespace Returns

/-- A call that has come to its end has returned. -/
theorem here (ht : m.session = t) (hwork : m.work = rest) : m.Returns [] t none rest := by
  refine ⟨0, m, rfl, ?_, ht, rfl⟩
  subst hwork
  rfl

/-- A call that returns from the next round on returns. -/
theorem of_round {w : Work} {left : List Work} {m' : Machine} {first : List ScriptUse} (hwork : m.work = w :: left)
    (hdone : m.perform w left = m') (hfirst : Work.uses m.plugins (w :: left) = first) (hfailure : m'.failure = m.failure)
    (h : m'.Returns log t r rest) : m.Returns (first ++ log) t r rest := by
  obtain ⟨n, m'', hlog, hrun, ht, hm''⟩ := h
  have hnext : m.next = m' := by rw [next, hwork, ← hdone]
  have huses : m.uses = first := by rw [uses, hwork, hfirst]
  exact ⟨n + 1, m'', by rw [told, hnext, hlog, huses], by rw [run, hnext, hrun], ht, hm''.trans hfailure⟩

/-- The same for a round in which nothing is done with scripts. -/
theorem of_quiet_round {w : Work} {left : List Work} {m' : Machine} (hwork : m.work = w :: left)
    (hdone : m.perform w left = m') (hquiet : Work.uses m.plugins (w :: left) = []) (hfailure : m'.failure = m.failure)
    (h : m'.Returns log t r rest) : m.Returns log t r rest := of_round hwork hdone hquiet hfailure h

/-- After a call that went well the next one is made. -/
theorem trans (h : m.Returns log t none ws)
    (hrest : ∀ m' : Machine, m'.session = t → m'.work = ws → m'.Returns more u r rest) :
    m.Returns (log ++ more) u r rest := by
  obtain ⟨n, m', hlog, hrun, ht, hm'⟩ := h
  obtain ⟨k, m'', hmore, hrun', hu, hm''⟩ := hrest (resume m' none ws) ht rfl
  exact ⟨n + k, m'', by rw [told_add, hlog, hrun, hmore], by rw [run_add, hrun, hrun'], hu, hm''.trans hm'⟩

/-- An error ends all that attempts nothing. -/
theorem unwind (ws : List Work) (h : m.Returns log t (some e) (ws ++ rest))
    (hws : ∀ reported, .attempted reported ∉ ws) : m.Returns log t (some e) rest := by
  obtain ⟨n, m', hlog, hrun, ht, hm'⟩ := h
  refine ⟨n, m', hlog, ?_, ht, hm'⟩
  rw [hrun, resume, resume, fail, fail, recover_append_of_no_attempt hws]

/-- A call ends as the one did that it made last. -/
theorem answer {reported : Bool} (h : m.Returns log t r (.answer reported :: rest)) : m.Returns log t r rest := by
  cases r with
  | some e => exact unwind [.answer reported] h (by simp)
  | none =>
    rw [← List.append_nil log]
    refine h.trans fun m' ht hwork => ?_
    have hsession := (report_session { m' with work := rest } reported .ok).trans ht
    exact of_quiet_round hwork rfl rfl (report_failure ..) (here hsession (report_work ..))

/-- Whatever is attempted ends with, the attempt goes well. -/
theorem caught {reported : Bool} (h : m.Returns log t r (.attempted reported :: rest)) : m.Returns log t none rest := by
  cases r with
  | some e =>
    obtain ⟨n, m', hlog, hrun, ht, hm'⟩ := h
    refine ⟨n, { m' with work := rest }.report reported (.flag false), hlog, ?_, ?_, ?_⟩
    · rw [hrun, resume, resume, fail, recover]
      cases reported <;> rfl
    · rw [report_session]; exact ht
    · rw [report_failure]; exact hm'
  | none =>
    rw [← List.append_nil log]
    refine h.trans fun m' ht hwork => ?_
    have hsession := (report_session { m' with work := rest } reported (.flag true)).trans ht
    exact of_quiet_round hwork rfl rfl (report_failure ..) (here hsession (report_work ..))

end Returns

end Machine

/-- A machine that has a call before it does what the execution of the call says. -/
theorem Executes.returns {s t : Session} {c : Call} {log : List ScriptUse} {r : Option ConfigError}
    (h : Executes s c log t r) {m : Machine} (hm : m.session = s) (reported : Bool) {rest : List Work}
    (hwork : m.work = c.before reported rest) : m.Returns log t r rest := by
  -- on the execution, whatever machine follows it and whatever it has to do afterwards
  induction h generalizing m reported rest with
  | @acted s a answer w hrun =>
    subst hm
    have hdone : m.perform (.step reported (.act a)) rest =
        { m with work := rest, workspace := w }.report reported answer := by
      rw [perform, act, show a.run m.plugins m.workspace = .ok answer w from hrun]
    exact .of_quiet_round hwork hdone rfl (report_failure ..) (.here (report_session ..) (report_work ..))
  | @failed s a e w hrun =>
    subst hm
    have hdone : m.next = { m with workspace := w }.fail e rest := by
      simp only [next, hwork, Call.before]
      rw [perform, act, show a.run m.plugins m.workspace = .error e w from hrun]
      rfl
    refine ⟨1, { m with workspace := w }, ?_, hdone, rfl, rfl⟩
    rw [told, uses, hwork]
    rfl
  | appliedAgain hid =>
    subst hm
    exact .of_round hwork (perform_apply_of_mem hid) (Work.uses_apply_of_mem hid) rfl (.answer (.here rfl rfl))
  | @aborted s t id inner body log e hid _ ih =>
    subst hm
    refine .of_round hwork (perform_apply_of_not_mem hid) (Work.uses_apply_of_not_mem hid) rfl ?_
    exact .unwind [.release id, .answer reported] (ih rfl inner rfl) (by simp)
  | @applied s t u id inner body log more r hid _ _ ihbody ihhandlers =>
    subst hm
    refine .of_round hwork (perform_apply_of_not_mem hid) (Work.uses_apply_of_not_mem hid) rfl ?_
    -- the body returns to the machine with the handlers yet to be taken
    refine (ihbody rfl inner rfl).trans fun m' ht hwork' => ?_
    subst ht
    exact .of_quiet_round hwork' rfl rfl rfl (.answer (ihhandlers rfl reported rfl))
  | queued hid =>
    subst hm
    exact .of_round hwork (perform_withPlugin_of_not_mem hid) rfl rfl (.answer (.here rfl rfl))
  | immediate hid _ ih =>
    subst hm
    exact .of_round hwork (perform_withPlugin_of_mem hid) rfl rfl (.answer (ih rfl reported rfl))
  | @attempted s t inner body log r _ ih =>
    have hbody := ih (m := { m with work := workOf inner body ++ .attempted reported :: rest }) hm inner rfl
    exact .of_round hwork rfl rfl rfl (.caught hbody)
  | scriptDone => exact .here hm hwork
  | @scriptStops s t x xs log e _ ih =>
    exact .unwind (workOf reported xs) (ih hm reported hwork) (by simp [workOf])
  | scriptGoesOn _ _ ihfirst ihrest => exact (ihfirst hm reported hwork).trans fun m' ht hwork' => ihrest ht reported hwork'
  | handlersDone => exact .here hm hwork
  | @handlersStop s t h hs log e _ ih =>
    have hbody := ih (m := { m with work := workOf h.reported h.body ++ (hs.map .handler ++ rest) }) hm h.reported rfl
    exact .of_round hwork rfl rfl rfl (.unwind (hs.map .handler) hbody (by simp))
  | @handlersGoOn s t u h hs log more r _ _ ihfirst ihrest =>
    have hfirst := ihfirst (m := { m with work := workOf h.reported h.body ++ (hs.map .handler ++ rest) }) hm h.reported rfl
    exact .of_round hwork rfl rfl rfl (hfirst.trans fun m' ht hwork' => ihrest ht reported hwork')

/-! ## What a session makes of an execution -/

/-- The error a step ended with, if it failed. -/
def StepReport.error? (r : StepReport) : Option ConfigError :=
  match r.result with
  | .ok _ => none
  | .error e => some e

/-- If nothing is to be done after the call, the machine has finished when it returns. -/
theorem Machine.Returns.finish {m : Machine} {log : List ScriptUse} {t : Session} {r : Option ConfigError}
    (h : m.Returns log t r []) (hm : m.failure = none) :
    log = m.told uses m.weight ∧ r = m.finish.failure ∧ t = m.finish.session := by
  obtain ⟨n, m', hlog, hrun, ht, hm'⟩ := h
  have hwork : (m.run n).work = [] := by
    rw [hrun]
    cases r <;> rfl
  -- both have worked everything off, so the rounds of either add nothing to the other
  have hfinish : m.run n = m.finish := by
    rw [← run_of_work_nil m.weight (m.run n) hwork, ← run_add, Nat.add_comm, run_add]
    exact run_of_work_nil n m.finish m.finish_work
  have htold : m.told uses m.weight = m.told uses n := by
    have hafter : (m.run m.weight).told uses n = [] := told_uses_of_work_nil n m.finish_work
    have hmore : m.told uses (n + m.weight) = m.told uses (m.weight + n) := by rw [Nat.add_comm]
    rw [told_add, told_add, told_uses_of_work_nil _ hwork, hafter, List.append_nil, List.append_nil] at hmore
    exact hmore.symm
  rw [htold, ← hfinish, hrun, ← hlog, ← ht]
  cases r with
  | none => exact ⟨rfl, (hm'.trans hm).symm, rfl⟩
  | some e => exact ⟨rfl, rfl, rfl⟩

namespace Session

theorem error?_perform (s : Session) (step : Step) :
    (s.perform step).1.error? = (s.machine step).finish.failure := by
  cases step with
  | act a =>
    rw [finish_act, Machine.act, perform]
    cases hrun : a.run s.plugins s.workspace with
    | ok answer w => simp [machine, hrun, report, StepReport.error?]
    | error e w => simp [machine, hrun, fail, recover, StepReport.error?]
  | _ =>
    simp only [perform, StepReport.error?]
    cases (s.machine _).finish.failure <;> rfl

/-- A step is executed as it is performed, and in no other way. -/
theorem executes_step {s t : Session} {x : Step} {log : List ScriptUse} {r : Option ConfigError}
    (h : Executes s (.step x) log t r) :
    log = (s.machine x).told uses (s.machine x).weight ∧ r = (s.perform x).1.error? ∧ t = (s.perform x).2 := by
  have hreturns : (s.machine x).Returns log t r [] := h.returns rfl false rfl
  obtain ⟨hlog, hr, ht⟩ := hreturns.finish rfl
  exact ⟨hlog, by rw [error?_perform, hr], by rw [perform_eq, ht, Machine.session]⟩

end Session

end BuildGraph

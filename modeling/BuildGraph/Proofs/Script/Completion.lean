/-
  BuildGraph.Proofs.Script.Completion: what a script does if nothing fails.

  Which actions a script comes to, in which order, depends on the plugins and on the work alone, as long as
  none of them fails (`Completes`). So the workspace after a step that went well is told by running these
  actions one after another.

  - `Completes.finish`: work that ends without a failure has been done by these actions.
  - `Session.perform_of_completes`: so has a step that did not fail.
  - `Session.mem_applied_of_mem`: a plugin that a script applies is applied in the end, whatever fails.
-/

import BuildGraph.Proofs.Script.History
import BuildGraph.Proofs.Script.Reachable

namespace BuildGraph

open Machine

/-! ## Without a failure -/

/-- If nothing fails, the work is done by the given actions, one after another, and leaves the plugins `qs`. No
    attempt is part of it. -/
inductive Completes : Plugins → List Work → List Action → Plugins → Prop
  | nil {ps : Plugins} : Completes ps [] [] ps
  | act {ps qs : Plugins} {reported : Bool} {a : Action} {rest : List Work} {as : List Action} :
    Completes ps rest as qs → Completes ps (.step reported (.act a) :: rest) (a :: as) qs
  | appliedAgain {ps qs : Plugins} {reported inner : Bool} {id : PluginId} {body : List Step} {rest : List Work}
    {as : List Action} : id ∈ ps.applied → Completes ps (.answer reported :: rest) as qs →
      Completes ps (.step reported (.apply id inner body) :: rest) as qs
  | applied {ps qs : Plugins} {reported inner : Bool} {id : PluginId} {body : List Step} {rest : List Work}
    {as : List Action} : id ∉ ps.applied →
      Completes (ps.markApplied id) (workOf inner body ++ .release id :: .answer reported :: rest) as qs →
      Completes ps (.step reported (.apply id inner body) :: rest) as qs
  | queued {ps qs : Plugins} {reported inner : Bool} {id : PluginId} {body : List Step} {rest : List Work}
    {as : List Action} : id ∉ ps.applied →
      Completes (ps.enqueue id (ps.handler inner body)).countHandler (.answer reported :: rest) as qs →
      Completes ps (.step reported (.withPlugin id inner body) :: rest) as qs
  | immediate {ps qs : Plugins} {reported inner : Bool} {id : PluginId} {body : List Step} {rest : List Work}
    {as : List Action} : id ∈ ps.applied →
      Completes ps.countHandler (.handler (ps.handler inner body) :: .answer reported :: rest) as qs →
      Completes ps (.step reported (.withPlugin id inner body) :: rest) as qs
  | started {ps qs : Plugins} {h : Handler} {rest : List Work} {as : List Action} :
    Completes ps (workOf h.reported h.body ++ rest) as qs → Completes ps (.handler h :: rest) as qs
  | released {ps qs : Plugins} {id : PluginId} {rest : List Work} {as : List Action} :
    Completes (ps.dismiss id) ((ps.waitingFor id).map .handler ++ rest) as qs → Completes ps (.release id :: rest) as qs
  | answered {ps qs : Plugins} {reported : Bool} {rest : List Work} {as : List Action} :
    Completes ps rest as qs → Completes ps (.answer reported :: rest) as qs

/-- Actions that succeed one after another. -/
inductive Performs : List Action → Workspace → Workspace → Prop
  | nil {w : Workspace} : Performs [] w w
  | cons {a : Action} {as : List Action} {ps : Plugins} {answer : Answer} {u v w : Workspace} :
    a.run ps w = .ok answer u → Performs as u v → Performs (a :: as) w v

theorem Performs.split (as : List Action) {bs : List Action} {w v : Workspace} (h : Performs (as ++ bs) w v) :
    ∃ u, Performs as w u ∧ Performs bs u v := by
  induction as generalizing w with
  | nil => exact ⟨w, .nil, h⟩
  | cons a as ih =>
    cases h with
    | cons hrun hrest =>
      obtain ⟨u, has, hbs⟩ := ih hrest
      exact ⟨u, .cons hrun has, hbs⟩

namespace Machine

variable {m : Machine}

theorem run_add (a b : Nat) (m : Machine) : m.run (a + b) = (m.run a).run b := by
  induction a generalizing m with
  | zero => rw [Nat.zero_add, run]
  | succ a ih =>
    rw [Nat.succ_add]
    exact ih m.next

/-- More rounds than are needed make no difference. -/
theorem run_eq_finish {n : Nat} (h : m.weight ≤ n) : m.run n = m.finish := by
  obtain ⟨k, rfl⟩ := Nat.exists_eq_add_of_le h
  rw [run_add]
  exact run_of_work_nil k m.finish m.finish_work

theorem finish_next (h : m.work ≠ []) : m.next.finish = m.finish := by
  have hlt := m.weight_next_lt h
  obtain ⟨k, hk⟩ := Nat.exists_eq_add_of_lt hlt
  rw [← run_eq_finish (show m.next.weight ≤ m.next.weight + k by omega), finish, hk]
  rfl

/-- Work is finished by doing the first piece of it and finishing what is left. -/
theorem finish_of_cons {w : Work} {rest : List Work} (h : m.work = w :: rest) : m.finish = (m.perform w rest).finish := by
  rw [← finish_next (by simp [h]), next, h]

theorem recover_of_append {ws vs : List Work} (h : recover (ws ++ vs) = none) : recover vs = none := by
  induction ws with
  | nil => exact h
  | cons w ws ih =>
    cases w with
    | attempted reported => cases h
    | _ => exact ih h

theorem finish_of_work_nil (h : m.work = []) : m.finish = m := run_of_work_nil _ m h

end Machine

/-- No attempt would catch a failure. -/
theorem Completes.recover {ps qs : Plugins} {ws : List Work} {as : List Action} (h : Completes ps ws as qs) :
    recover ws = none := by
  induction h with
  | nil => rfl
  | act _ ih => exact ih
  | appliedAgain _ _ ih => exact ih
  | applied _ _ ih =>
    have hrest := recover_of_append ih
    exact hrest
  | queued _ _ ih => exact ih
  | immediate _ _ ih => exact ih
  | started _ ih =>
    have hrest := recover_of_append ih
    exact hrest
  | released _ ih =>
    have hrest := recover_of_append ih
    exact hrest
  | answered _ ih => exact ih

/-- Work that ends without a failure has been done by the actions it comes to. -/
theorem Completes.finish {ps qs : Plugins} {ws : List Work} {as : List Action} (h : Completes ps ws as qs) {m : Machine}
    (hps : m.plugins = ps) (hws : m.work = ws) (hok : m.finish.failure = none) :
    m.finish.plugins = qs ∧ Performs as m.workspace m.finish.workspace := by
  induction h generalizing m with
  | nil =>
    rw [finish_of_work_nil hws]
    exact ⟨hps, .nil⟩
  | @act ps qs reported a rest as hrest ih =>
    rw [finish_of_cons hws, perform, Machine.act] at hok ⊢
    cases hrun : a.run m.plugins m.workspace with
    | ok answer w =>
      rw [hrun] at hok
      obtain ⟨hqs, hperforms⟩ := ih (by rw [report_plugins]; exact hps) (by rw [report_work]) hok
      rw [report_workspace] at hperforms
      exact ⟨hqs, .cons hrun hperforms⟩
    | error e w =>
      rw [hrun] at hok
      simp only [fail, hrest.recover] at hok
      rw [finish_of_work_nil rfl] at hok
      cases hok
  | appliedAgain hid _ ih =>
    subst hps
    rw [finish_of_cons hws, perform_apply_of_mem hid] at hok ⊢
    exact ih rfl rfl hok
  | applied hid _ ih =>
    subst hps
    rw [finish_of_cons hws, perform_apply_of_not_mem hid] at hok ⊢
    exact ih rfl rfl hok
  | queued hid _ ih =>
    subst hps
    rw [finish_of_cons hws, perform_withPlugin_of_not_mem hid] at hok ⊢
    exact ih rfl rfl hok
  | immediate hid _ ih =>
    subst hps
    rw [finish_of_cons hws, perform_withPlugin_of_mem hid] at hok ⊢
    exact ih rfl rfl hok
  | started _ ih =>
    rw [finish_of_cons hws] at hok ⊢
    exact ih hps rfl hok
  | released _ ih =>
    rw [finish_of_cons hws, perform, hps] at hok ⊢
    exact ih rfl rfl hok
  | answered _ ih =>
    rw [finish_of_cons hws] at hok ⊢
    obtain ⟨hqs, hperforms⟩ := ih (by rw [perform, report_plugins]; exact hps) (by rw [perform, report_work]) hok
    rw [perform, report_workspace] at hperforms
    exact ⟨hqs, hperforms⟩

/-- The steps of a script that are actions are done in order. -/
theorem Completes.acts {ps qs : Plugins} {rest : List Work} {bs : List Action} (h : Completes ps rest bs qs)
    (reported : Bool) (as : List Action) : Completes ps (workOf reported (as.map .act) ++ rest) (as ++ bs) qs := by
  induction as with
  | nil => exact h
  | cons a as ih => exact .act ih

/-- A step that is reported to have gone well has come to its end. -/
theorem Session.failure_eq_none {s : Session} {step : Step} (hok : (s.perform step).1.result.isOk = true) :
    (s.machine step).finish.failure = none := by
  cases step with
  | act a =>
    rw [finish_act, Machine.act]
    simp only [perform] at hok
    cases hrun : a.run s.plugins s.workspace with
    | ok answer w => simp [machine, hrun, report]
    | error e w =>
      rw [hrun] at hok
      cases hok
  | _ =>
    simp only [perform] at hok
    split at hok
    · assumption
    · cases hok

/-- A step that did not fail has been performed by the actions it comes to. -/
theorem Session.perform_of_completes {s : Session} {step : Step} {qs : Plugins} {as : List Action}
    (h : Completes s.plugins [.step false step] as qs) (hok : (s.perform step).1.result.isOk = true) :
    (s.perform step).2.plugins = qs ∧ Performs as s.workspace (s.perform step).2.workspace := by
  rw [perform_eq]
  exact h.finish rfl rfl (failure_eq_none hok)

/-! ## Applied plugins -/

theorem Machine.prefix_applied_run (n : Nat) (m : Machine) : m.plugins.applied <+: (m.run n).plugins.applied := by
  induction n generalizing m with
  | zero => exact List.prefix_rfl
  | succ n ih => exact m.next_turn.prefix_applied.trans (ih m.next)

theorem Machine.mem_applied_run {m : Machine} {id : PluginId} (n : Nat) (hid : id ∈ m.plugins.applied) :
    id ∈ (m.run n).plugins.applied := (m.prefix_applied_run n).subset hid

namespace Session

variable {s : Session} {id : PluginId} {reported : Bool} {body : List Step}

theorem prefix_applied_perform (step : Step) (s : Session) : s.plugins.applied <+: (s.perform step).2.plugins.applied := by
  rw [perform_eq]
  exact prefix_applied_run _ (s.machine step)

theorem prefix_applied_performAll (steps : List Step) (s : Session) :
    s.plugins.applied <+: (performAll steps s).2.plugins.applied := by
  induction steps generalizing s with
  | nil => exact List.prefix_rfl
  | cons step steps ih => exact (s.prefix_applied_perform step).trans (ih _)

theorem mem_applied_performAll (steps : List Step) (hid : id ∈ s.plugins.applied) :
    id ∈ (performAll steps s).2.plugins.applied := (s.prefix_applied_performAll steps).subset hid

/-- A plugin counts as applied even if what it does fails. -/
theorem mem_applied_apply (s : Session) (id : PluginId) (reported : Bool) (body : List Step) :
    id ∈ (s.perform (.apply id reported body)).2.plugins.applied := by
  have happlied := (s.machine (.apply id reported body)).next_turn.applies
  rw [perform_eq, ← finish_next (by simp [machine])]
  exact mem_applied_run _ happlied

theorem mem_applied_of_mem {steps : List Step} (h : .apply id reported body ∈ steps) :
    id ∈ (performAll steps s).2.plugins.applied := by
  induction steps generalizing s with
  | nil => cases h
  | cons step steps ih =>
    rcases List.mem_cons.mp h with rfl | h
    · exact mem_applied_performAll steps (mem_applied_apply s id reported body)
    · exact ih h

end Session

end BuildGraph

/-
  BuildGraph.Proofs.Script.Reachable: whatever a script does, the project stays reachable.

  Every action, whether it succeeds or fails, leaves a project that evolved from the one before, and so
  does every script with all the plugins and handlers in it.

  - `Action.run_evolves`: one action.
  - `Session.perform_evolves`: one step with all it gives rise to.
  - `Session.performAll_reachable`: any number of steps.
-/

import BuildGraph.Proofs.Script.Action

namespace BuildGraph

open Operation Project ScriptM

theorem evolves_acting : Acting Evolves where
  toArranging := ConfigM.evolves_arranging
  mark := realizing_evolves.mark
  body := realizing_evolves.body
  resolve := realizing_evolves.resolve
  supply p _ _ := .single (.values p.group p.layout.buildDir p.properties _)
  values p group buildDir properties := .single (.values group buildDir properties p.providers)
  insert _ _ := ConfigM.evolves_insert _
  reshape _ _ _ hname _ := ConfigM.evolves_editSourceSet _ hname
  registerTask _ _ _ _ := ConfigM.evolves_registerTask _ _ _
  wait _ name _ := .single (.tasks (.edit name (fun _ => rfl) fun _ h => h))
  dependsOn hd hy := ConfigM.evolves_dependsOn hd hy
  wireProcessingTask _ _ _ _ _ _ := ConfigM.evolves_wireProcessingTask _ _ _ _ _

/-- Whatever an action does, the project evolves. -/
theorem Action.run_evolves (plugins : Plugins) (a : Action) (w : Workspace) :
    Keeps (Workspace.On Evolves) (a.run plugins) w := by
  refine a.run_tends evolves_acting.toTending plugins ?_ w
  refine evolves_acting.toCreating.creationKeeps_of_setClasspath (fun name which files p => ?_) a
  exact ConfigM.evolves_editSourceSet name (SourceSet.name_updateClasspath _ which)

namespace Machine

theorem fail_workspace (m : Machine) (e : ConfigError) (rest : List Work) : (m.fail e rest).workspace = m.workspace := by
  unfold fail report
  split
  · split <;> rfl
  · rfl

theorem report_workspace (m : Machine) (reported : Bool) (a : Answer) :
    (m.report reported a).workspace = m.workspace := by
  cases reported <;> rfl

/-- An action leaves the workspace it leaves on its own. -/
theorem act_workspace (m : Machine) (reported : Bool) (a : Action) (rest : List Work) :
    (m.act reported a rest).workspace = after (a.run m.plugins) m.workspace := by
  unfold act
  cases hr : a.run m.plugins m.workspace with
  | ok answer w =>
    rw [after_of_ok hr]
    exact report_workspace _ _ _
  | error e w =>
    rw [after_of_error hr]
    exact fail_workspace _ _ _

/-- A round keeps what the action that is done in it keeps. -/
theorem next_keeps {R : Project → Project → Prop} (hR : Frame R) {m : Machine}
    (h : ∀ reported a rest, m.work = .step reported (.act a) :: rest →
      Keeps (Workspace.On R) (a.run m.plugins) m.workspace) : R m.workspace.project m.next.workspace.project := by
  unfold next
  cases hwork : m.work with
  | nil => exact hR.refl _
  | cons w rest =>
    cases w with
    | step reported s =>
      cases s with
      | act a =>
        simp only [perform]
        rw [act_workspace]
        exact h reported a rest hwork
      | apply id inner body =>
        simp only [perform]
        split <;> exact hR.refl _
      | withPlugin id inner body =>
        simp only [perform]
        split <;> exact hR.refl _
      | attempt inner body => exact hR.refl _
    | handler h => exact hR.refl _
    | release id => exact hR.refl _
    | answer reported => cases reported <;> exact hR.refl _
    | attempted reported => cases reported <;> exact hR.refl _

/-- One round. -/
theorem next_evolves (m : Machine) : Evolves m.workspace.project m.next.workspace.project :=
  next_keeps evolves_frame fun _ a _ _ => a.run_evolves m.plugins m.workspace

theorem run_evolves (n : Nat) (m : Machine) : Evolves m.workspace.project (m.run n).workspace.project := by
  induction n generalizing m with
  | zero => exact .refl
  | succ n ih => exact m.next_evolves.trans (ih m.next)

end Machine

namespace Session

/-- There is nothing left to do after the one round of an action. -/
theorem finish_act (s : Session) (a : Action) :
    (s.machine (.act a)).finish = (s.machine (.act a)).act false a [] := by
  have hweight : (s.machine (.act a)).weight = Machine.waitingWeight s.plugins.waiting + 1 := Nat.add_comm _ _
  have hnext : (s.machine (.act a)).next = (s.machine (.act a)).act false a [] := rfl
  rw [← hnext, Machine.finish, hweight]
  show Machine.run _ (s.machine (.act a)).next = _
  refine Machine.run_of_work_nil _ _ ?_
  rw [hnext, Machine.act]
  split <;> rfl

/-- A step is performed by working off all it gives rise to. -/
theorem perform_eq (s : Session) (step : Step) :
    (s.perform step).2 = ⟨(s.machine step).finish.workspace, (s.machine step).finish.plugins⟩ := by
  cases step with
  | act a =>
    rw [finish_act]
    cases hr : a.run s.plugins s.workspace with
    | ok answer w => simp [perform, Machine.act, machine, hr, Machine.report]
    | error e w => simp [perform, Machine.act, machine, hr, Machine.fail, Machine.recover]
  | apply id inner body => rfl
  | withPlugin id inner body => rfl
  | attempt inner body => rfl

/-- What holds once the work is finished holds after the step, with nothing left to do. -/
theorem perform_of_finish {P : Plugins → List Work → Project → Prop} {s : Session} {step : Step}
    (h : P (s.machine step).finish.plugins (s.machine step).finish.work (s.machine step).finish.workspace.project) :
    P (s.perform step).2.plugins [] (s.perform step).2.workspace.project := by
  rw [(s.machine step).finish_work] at h
  rw [perform_eq]
  exact h

/-- A step with all it gives rise to. -/
theorem perform_evolves (s : Session) (step : Step) :
    Evolves s.workspace.project (s.perform step).2.workspace.project := by
  rw [perform_eq]
  exact Machine.run_evolves _ (s.machine step)

theorem performAll_evolves (steps : List Step) (s : Session) :
    Evolves s.workspace.project (performAll steps s).2.workspace.project := by
  induction steps generalizing s with
  | nil => exact .refl
  | cons step steps ih => exact (s.perform_evolves step).trans (ih _)

/-- Every script leaves a reachable project. -/
theorem performAll_reachable (settings : Settings) (steps : List Step) :
    (performAll steps (start (.ofSettings settings))).2.workspace.project.Reachable :=
  (reachable_ofSettings settings).evolves (performAll_evolves steps (start (.ofSettings settings)))

end Session

end BuildGraph

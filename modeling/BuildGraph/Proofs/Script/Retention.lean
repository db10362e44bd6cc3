/-
  BuildGraph.Proofs.Script.Retention: a script only ever adds.

  Whatever a script does, and wherever it fails, nothing is taken out of the registries of the project
  and no plugin stops being applied. How far processing has come is told by what is there, so it never
  goes back.

  - `Project.Retains.stage_le`: a project that retains another has come at least as far.
  - `Session.registries_only_grow`: so every step of a script, and every round of a step, leaves all that
    was there.
-/

import BuildGraph.Proofs.Script.Completion

namespace BuildGraph

/-- The stages of processing, counted in the order they are passed. -/
def ProcessingState.stage : ProcessingState → Nat
  | .unconfigured => 0
  | .basePluginSeen => 1
  | .fullyWired => 2

theorem ProcessingState.stage_le_fullyWired (s : ProcessingState) : s.stage ≤ fullyWired.stage := by
  cases s <;> decide

namespace Project.Retains

variable {p q : Project} {name : String}

theorem contains_task (h : p.Retains q) (hp : p.tasks.contains name = true) : q.tasks.contains name = true :=
  Tasks.contains_iff.mpr (h.tasks.subset (Tasks.contains_iff.mp hp))

theorem contains_sourceSet (h : p.Retains q) (hp : p.sourceSets.contains name = true) :
    q.sourceSets.contains name = true :=
  SourceSets.contains_iff.mpr (h.sourceSets.subset (SourceSets.contains_iff.mp hp))

/-- Processing has come at least as far. -/
theorem stage_le (h : p.Retains q) : p.processingState.stage ≤ q.processingState.stage := by
  unfold processingState
  by_cases hwired : (p.tasks.contains ProcessingKind.application.taskName
      && p.tasks.contains (ProcessingKind.tests SourceSetName.main).taskName) = true
  · -- both processing tasks are still there
    obtain ⟨happlication, htests⟩ := Bool.and_eq_true_iff.mp hwired
    rw [if_pos (Bool.and_eq_true_iff.mpr ⟨h.contains_task happlication, h.contains_task htests⟩)]
    exact ProcessingState.stage_le_fullyWired _
  · rw [if_neg hwired]
    by_cases hderived : (p.sourceSets.contains derivedMain && p.sourceSets.contains derivedTest) = true
    · obtain ⟨hmain, htest⟩ := Bool.and_eq_true_iff.mp hderived
      rw [if_pos hderived, if_pos (Bool.and_eq_true_iff.mpr ⟨h.contains_sourceSet hmain, h.contains_sourceSet htest⟩)]
      split <;> decide
    · rw [if_neg hderived]
      exact Nat.zero_le _

end Project.Retains

/-- What a script under way would leave if it stopped. -/
def Machine.session (m : Machine) : Session := ⟨m.workspace, m.plugins⟩

/-- All that is in the first session is in the second. -/
structure Session.Retains (s t : Session) : Prop where
  project : s.workspace.project.Retains t.workspace.project
  applied : s.plugins.applied <+: t.plugins.applied
  stage : s.workspace.project.processingState.stage ≤ t.workspace.project.processingState.stage

theorem Session.Retains.of_evolves {s t : Session} (h : s.workspace.project.Evolves t.workspace.project)
    (happlied : s.plugins.applied <+: t.plugins.applied) : s.Retains t :=
  ⟨h.retains, happlied, h.retains.stage_le⟩

/-- Steps that are performed one after another retain all that was there, whether they succeed or fail, and so do
    any number of rounds of a step under way, which may end midway in what it does or after a failure. -/
theorem Session.registries_only_grow (s : Session) (steps : List Step) (m : Machine) (n : Nat) :
    s.Retains (performAll steps s).2 ∧ m.session.Retains (m.run n).session :=
  ⟨.of_evolves (s.performAll_evolves steps) (s.prefix_applied_performAll steps),
    .of_evolves (m.run_evolves n) (m.prefix_applied_run n)⟩

end BuildGraph

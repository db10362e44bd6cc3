/-
  BuildGraph.Proofs.Script.Plan: the order in which the tasks of a conventional script are run.

  A script is performed action by action, and some of the actions create source sets. What a script
  created (`Session.created`) is what was created by any of its actions, whoever took them: the
  script itself, a plugin, a handler or an attempt, and also if something failed later on.

  - `Session.created_built`: all of this is built in the project the script leaves.
  - `Session.performAll_finalizes`: the project is finalized, whatever failed on the way; the classes of
    every source set that was created come last among its tasks, and processing comes before the
    tasks of the source set it fills.
-/

import BuildGraph.Proofs.Script.Conventional

namespace BuildGraph

open Machine Operation Project SourceSetName

/-! ## What a script creates -/

/-- The source set `name`, if its creation succeeds. -/
def Project.creates (p : Project) (name : String) : List String :=
  match ConfigM.createSourceSet name p with
  | .ok _ _ => [name]
  | .error _ _ => []

/-- The source sets whose creation succeeds when an action is run. -/
def Action.creations (p : Project) : Action → List String
  | .sourceSet (.create name) => p.creates name
  | .sourceSet (.derive name existing) =>
    match p.sourceSets.get existing with
    | .ok _ => p.creates name
    | .error _ => []
  | .processing .javaConventions =>
    match ConfigM.createSourceSet main p with
    | .ok _ q => main :: q.creates test
    | .error _ _ => []
  | _ => []

namespace Machine

/-- The source sets that are created in the next round. -/
def creations (m : Machine) : List String :=
  match m.work with
  | .step _ (.act a) :: _ => a.creations m.workspace.project
  | _ => []

/-- The source sets that are created in `n` rounds. -/
def created : Nat → Machine → List String
  | 0, _ => []
  | n + 1, m => m.creations ++ created n m.next

end Machine

/-- The source sets that are created by steps performed one after another. -/
def Session.created : List Step → Session → List String
  | [], _ => []
  | step :: steps, s =>
    (s.machine step).created (s.machine step).weight ++ created steps (s.perform step).2

theorem Project.mem_creates {p : Project} {name other : String} (h : other ∈ p.creates name) :
    other = name ∧ ∃ q, ConfigM.createSourceSet name p = .ok ⟨⟩ q := by
  unfold creates at h
  split at h
  · rename_i q hq
    exact ⟨List.mem_singleton.mp h, q, hq⟩
  · cases h

/-- Once an action has created a source set, whatever else it does and however far it comes keeps each relation that
    arranging the project keeps. -/
theorem Action.creations_since {R : Project → Project → Prop} (hR : Arranging R) (plugins : Plugins) {a : Action}
    {w : Workspace} {name : String} (h : name ∈ a.creations w.project) :
    ∃ p q u, ConfigM.createSourceSet name p = .ok u q ∧ R q (after (a.run plugins) w).project := by
  -- what is made of the result of an operation changes nothing any more
  cases a with
  | sourceSet a =>
    cases a with
    | create other =>
      obtain ⟨rfl, q, hq⟩ := mem_creates h
      refine ⟨_, q, _, hq, (ScriptM.project_after_onProject _ _ w).symm ▸ ?_⟩
      rw [after_of_ok hq]
      exact hR.refl q
    | derive other existing =>
      unfold creations at h
      cases hs : w.project.sourceSets.get existing with
      | error e =>
        simp only [hs] at h
        cases h
      | ok s =>
        simp only [hs] at h
        obtain ⟨rfl, q, hq⟩ := mem_creates h
        exact ⟨_, q, _, hq,
          (ScriptM.project_after_onProject _ _ w).symm ▸ hR.toAdjusting.after_deriveSourceSet hs hq⟩
    | _ => cases h
  | processing a =>
    cases a with
    | javaConventions =>
      unfold creations at h
      cases hq : ConfigM.createSourceSet main w.project with
      | error e q =>
        simp only [hq] at h
        cases h
      | ok u q =>
        simp only [hq] at h
        rcases List.mem_cons.mp h with rfl | h
        · exact ⟨_, q, _, hq, (ScriptM.project_after_onProject _ _ w).symm ▸ hR.after_main_applyJavaConventions hq⟩
        · obtain ⟨rfl, r, hr⟩ := mem_creates h
          exact ⟨_, r, _, hr,
            (ScriptM.project_after_onProject _ _ w).symm ▸ hR.toAdjusting.after_test_applyJavaConventions hq hr⟩
    | _ => cases h
  | _ => cases h

/-- What is created in a round was created by the action that is performed in it. -/
theorem Machine.creations_since {R : Project → Project → Prop} (hR : Arranging R) {m : Machine} {name : String}
    (h : name ∈ m.creations) :
    ∃ p q u, ConfigM.createSourceSet name p = .ok u q ∧ R q m.next.workspace.project := by
  unfold creations at h
  unfold next
  split at h
  · rename_i reported a rest hwork
    rw [hwork]
    show ∃ p q u, _ ∧ R q (m.act reported a rest).workspace.project
    rw [act_workspace]
    exact a.creations_since hR m.plugins h
  · cases h

/-- What is created in some rounds is built after them. -/
theorem Machine.created_built (n : Nat) {m : Machine} {name : String} (h : name ∈ m.created n) :
    (m.run n).workspace.project.Built name := by
  induction n generalizing m with
  | zero => cases h
  | succ n ih =>
    rcases List.mem_append.mp h with h | h
    · obtain ⟨p, q, u, hc, hq⟩ := creations_since ConfigM.evolves_arranging h
      exact ((ConfigM.built_of_createSourceSet hc).evolves hq).evolves (run_evolves n m.next)
    · exact ih h

theorem Session.created_built {steps : List Step} {s : Session} {name : String} (h : name ∈ created steps s) :
    (performAll steps s).2.workspace.project.Built name := by
  induction steps generalizing s with
  | nil => cases h
  | cons step steps ih =>
    rcases List.mem_append.mp h with h | h
    · have hbuilt := Machine.created_built _ h
      refine Built.evolves ?_ (performAll_evolves steps (s.perform step).2)
      rw [perform_eq]
      exact hbuilt
    · exact ih h

/-! ## The plan -/

/-- A processing task that is wired comes before the three tasks of the source set it fills. -/
theorem Project.Feeds.before {p : Project} {kind : ProcessingKind} {order : List String} (h : p.Feeds kind)
    (ho : p.tasks.graph.TopologicalOrder order) :
    Before order kind.taskName (compileJava kind.derived) ∧ Before order kind.taskName (processResources kind.derived) ∧
      Before order kind.taskName (SourceSetName.classes kind.derived) := by
  have hcompile := ho.before _ _ h.compile
  exact ⟨hcompile, ho.before _ _ h.resources, hcompile.trans ho.nodup (ho.before _ _ h.classes)⟩

/-- Whatever a conventional script does, and whichever of its steps fail, the project it leaves is finalized. -/
theorem Session.performAll_finalizes (settings : Settings) (steps : List Step)
    (h : ∀ step ∈ steps, step.Conventional) :
    let s := start (.ofSettings settings)
    let p := (performAll steps s).2.workspace.project
    ∃ order q, ConfigM.finalize p = .ok order q ∧
      (∀ name ∈ created steps s,
        Before order (compileJava name) (classes name) ∧ Before order (processResources name) (classes name)) ∧
      ("processAot" ∈ p.tasks.names →
        Before order "processAot" "compileAotJava" ∧ Before order "processAot" "processAotResources" ∧
          Before order "processAot" "aotClasses") ∧
      ("processTestAot" ∈ p.tasks.names →
        Before order "processTestAot" "compileAotTestJava" ∧ Before order "processTestAot" "processAotTestResources" ∧
          Before order "processTestAot" "aotTestClasses") := by
  intro s p
  have hp : p.Conventional := (performAll_conforms h (start_conforms settings)).project
  have hsound := (performAll_reachable settings steps).sound
  obtain ⟨order, q, hq, ho⟩ := hp.toOrderly.finalizes hsound.tasks
  refine ⟨order, q, hq, ?_, ?_, ?_⟩
  · intro name hname
    have hbuilt := created_built hname
    exact ⟨ho.before _ _ hbuilt.compile, ho.before _ _ hbuilt.resources⟩
  · intro haot
    exact (hp.wired .application haot).before ho
  · intro htest
    exact (hp.wired (.tests main) htest).before ho

/-- With the three plugins applied, the last of them lets processing be wired. -/
theorem Session.performAll_finalizes_of_plugins :
    let steps := [Plugin.aot.step, Plugin.java.step, (Plugin.boot none).step]
    let s := start (.ofSettings { name := "demo" })
    (∀ step ∈ steps, step.Conventional) ∧ created steps s = ["main", "test", "aot", "aotTest"] ∧
      ∃ order q, ConfigM.finalize (performAll steps s).2.workspace.project = .ok order q ∧
        Before order "compileTestJava" "testClasses" ∧ Before order "processTestAot" "aotTestClasses" := by
  intro steps s
  have hsteps : ∀ step ∈ steps, step.Conventional := by
    simpa [steps] using ⟨Plugin.aot_conventional, Plugin.java_conventional, Plugin.boot_conventional none⟩
  have hcreated : created steps s = ["main", "test", "aot", "aotTest"] := by decide +kernel
  have htask : "processTestAot" ∈ (performAll steps s).2.workspace.project.tasks.names := by decide +kernel
  obtain ⟨order, q, hq, hsets, -, htest⟩ := Session.performAll_finalizes { name := "demo" } steps hsteps
  have hs : s = start (.ofSettings { name := "demo" }) := rfl
  rw [← hs] at hq hsets htest
  have hmem : "test" ∈ created steps s := by
    rw [hcreated]
    decide
  have htests := (hsets "test" hmem).1
  have hnames : compileJava "test" = "compileTestJava" ∧ classes "test" = "testClasses" := by decide
  rw [hnames.1, hnames.2] at htests
  exact ⟨hsteps, hcreated, order, q, hq, htests, (htest htask).2.2⟩

end BuildGraph

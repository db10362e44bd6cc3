/-
  BuildGraph.Proofs.Script.SourceSetTask: at which moment of a run the tasks of a source set take from it.

  An action that may realize tasks changes no source set, and any other action leaves every task as it is. So when a
  compile task is realized, by whatever action and however far this comes, there is one state of its source set that it
  takes from: the one before the action, with all that was done to the source set until then. What is done to it later
  makes no difference any more.

  - `Action.run_steady`: what computes nothing leaves every task as it is.
  - `Action.run_awaits`: after an action, a task that waits for its source set either waits still, or has taken from it.
  - `Leads.takes`: over a run, it waits still or there is one round in which it has taken, and stays so.
  - `Reachable.sourceSetTask_takes`: so it is with the tasks of each source set that is created.
-/

import BuildGraph.Proofs.Project.Creation
import BuildGraph.Proofs.Project.SourceSetTask
import BuildGraph.Proofs.Script.Plan
import BuildGraph.Proofs.Script.Snapshot

namespace BuildGraph

open Operation Project SourceSetName

/-! ## What leaves every task as it is -/

namespace Project

variable {p q : Project} {name : String} {unit : UnitId} {which : SourceSetTask}

/-- Every task is as it was, and every source set is where it was laid out. -/
structure Steady (p q : Project) : Prop where
  tasks : ∀ name t, p.tasks.find? name = some t → q.tasks.find? name = some t
  units : ∀ name u, p.sourceSets.unitOf? name = some u → q.sourceSets.unitOf? name = some u

theorem steady_frame : Frame Steady where
  refl _ := ⟨fun _ _ h => h, fun _ _ h => h⟩
  trans h h' :=
    ⟨fun name t ht => h'.tasks name t (h.tasks name t ht), fun name u hu => h'.units name u (h.units name u hu)⟩

theorem Steady.of_spares (he : Evolves p q) (hs : p.Spares q) : p.Steady q := ⟨hs.tasks, fun _ _ => he.unitOf?⟩

theorem Awaits.steady (h : p.Awaits which name unit) (hq : p.Steady q) : q.Awaits which name unit :=
  ⟨hq.tasks _ _ h.task, hq.units _ _ h.unit⟩

theorem steady_updateSourceSet (name : String) {f : SourceSet → SourceSet} (hf : ∀ s, (f s).name = s.name) (p : Project) :
    Keeps Steady (ConfigM.onSourceSets (·.update name f)) p :=
  .of_spares (ConfigM.evolves_editSourceSet name hf) (spares_onSourceSets _ p)

theorem steady_registerTask (name : String) (body : TaskBody) (cs : List Configurator) (p : Project) :
    Keeps Steady (ConfigM.registerTask name body cs) p :=
  .of_spares (ConfigM.evolves_registerTask name body cs) (spares_registerTask name body cs p)

theorem steady_dependsOn (dependent dependency : String) (p : Project) :
    Keeps Steady (ConfigM.dependsOn dependent dependency) p :=
  .of_eq_ok (ConfigM.onTasks_ok rfl) ⟨fun _ _ ht => ht, fun _ _ hu => hu⟩

theorem steady_arranging : Arranging Steady where
  toFrame := steady_frame
  createConfiguration name setup p :=
    .of_spares (evolves_acting.createConfiguration name setup p) (spares_arranging.createConfiguration name setup p)
  extendConfiguration child parent p :=
    .of_spares (evolves_acting.extendConfiguration child parent p) (spares_arranging.extendConfiguration child parent p)
  addDependency name d p := .of_spares (evolves_acting.addDependency name d p) (spares_arranging.addDependency name d p)
  editConfiguration name e p :=
    .of_spares (evolves_acting.editConfiguration name e p) (spares_arranging.editConfiguration name e p)
  editSourceSet name _ p hf _ _ := steady_updateSourceSet name hf p
  createSourceSet name p := .of_spares (evolves_acting.createSourceSet name p) (spares_arranging.createSourceSet name p)

theorem steady_creating : Creating Steady where
  toArranging := steady_arranging
  insert name p := .of_spares (evolves_acting.insert name p) (spares_onSourceSets _ p)
  registerTask := steady_registerTask
  wireProcessingTask kind derived input _ outputs p := by
    refine steady_arranging.toAdjusting.wireProcessingTask (fun roots outputs p => ?_) steady_dependsOn derived outputs p
    exact ConfigM.keeps_registerProcessingTask steady_frame (fun _ => steady_registerTask _ _)
      (fun _ _ _ => ⟨fun _ _ ht => ht, fun _ _ hu => hu⟩) input _ roots outputs p

theorem steady_editing : Editing Steady where
  toFrame := steady_frame
  supply _ _ _ := ⟨fun _ _ ht => ht, fun _ _ hu => hu⟩
  values _ _ _ _ := ⟨fun _ _ ht => ht, fun _ _ hu => hu⟩
  reshape name _ p hf _ := steady_updateSourceSet name hf p
  dependsOn _ _ := steady_dependsOn _ _ _

end Project

/-- Whatever an action that computes nothing does, and however far it comes, every task is as it was. -/
theorem Action.run_steady (plugins : Plugins) {a : Action} (hc : a.computes = false) (w : Workspace) :
    Keeps (Workspace.On Steady) (a.run plugins) w := by
  refine a.run_edits steady_editing plugins hc (steady_arranging.toAdjusting.changesKeep ?_) w
  refine steady_creating.creationKeeps_of_setClasspath (fun name which files p => ?_) a
  exact steady_updateSourceSet name (SourceSet.name_updateClasspath _ which) p

/-! ## Actions that compute -/

/-- The action submits configurators to the task, through a handle for bodies of this type. -/
def Action.Submits (task : String) (kind : TaskKind) : Action → Prop
  | .task (.configure name setup) => name = task ∧ setup.kind = kind
  | _ => False

section

variable {C : SourceSets → Option Task → Prop} {task name : String} {kind : TaskKind} {a : Action} {w : Workspace}
  {which : SourceSetTask} {unit : UnitId} {s : SourceSet} {t : Task}

/-- What a task is configured with is for bodies of its type: a handle for another type is not even obtained. -/
theorem Action.run_configure_of_kind_ne {setup : TaskSetup} (plugins : Plugins)
    (ht : w.project.tasks.find? task = some t) (hkind : t.body.kind ≠ setup.kind) :
    after ((Action.task (.configure task setup)).run plugins) w = w := by
  have hnamed : w.project.tasks.named setup.kind task = .error (.taskTypeMismatch task setup.kind t.body.kind) := by
    rw [Tasks.named, Tasks.get_of_find? ht]
    exact if_neg hkind
  have hrun : (Action.task (.configure task setup)).run plugins w = .error _ w :=
    bind_of_error (ScriptM.require_error hnamed)
  exact after_of_error hrun

/-- What evaluation keeps of the source sets and a task is kept by an action that submits nothing to the task. -/
theorem Action.run_standing (hE : Evaluating (Standing C task))
    (hkind : ∀ r o, C r o → ∃ t, o = some t ∧ t.body.kind = kind) (plugins : Plugins) (hc : a.computes = true)
    (ha : ¬ a.Submits task kind) (w : Workspace) : Keeps (Workspace.On (Standing C task)) (a.run plugins) w := by
  by_cases hconfigures : ∃ setup, a = .task (.configure task setup)
  · obtain ⟨setup, rfl⟩ := hconfigures
    intro h
    obtain ⟨t, ht, hk⟩ := hkind _ _ h
    rw [run_configure_of_kind_ne plugins ht fun he => ha ⟨rfl, he.symm.trans hk⟩]
    exact h
  · have hC : Computing (Standing C task) := { toEvaluating := hE, supply := fun _ _ _ => id }
    refine a.run_computes hC plugins hc ?_ w
    cases a with
    | task a =>
      cases a with
      | configure name setup => exact configure_of_ne hE fun he => hconfigures ⟨setup, he ▸ rfl⟩
      | _ => trivial
    | _ => trivial

/-- A realized task is left as it is by every action that submits nothing to it. -/
theorem Action.run_leaves_realized (plugins : Plugins) (hr : t.realized = true) (ha : ¬ a.Submits task t.body.kind)
    (ht : w.project.tasks.find? task = some t) : (after (a.run plugins) w).project.tasks.find? task = some t := by
  cases hc : a.computes with
  | false => exact (a.run_steady plugins hc w).tasks task t ht
  | true => exact a.run_standing (evaluating_of_realized hr) (fun _ _ h => ⟨t, h, rfl⟩) plugins hc ha w ht

/-- After an action that submits nothing to it, a task that waits for its source set waits still, or has taken from the
    source set as it was. In this case no source set has changed. -/
theorem Action.run_awaits (plugins : Plugins) (ha : ¬ a.Submits (which.taskName name) which.kind)
    (h : w.project.Awaits which name unit) (hs : w.project.sourceSets.find? name = some s) :
    (after (a.run plugins) w).project.Awaits which name unit ∨
      (after (a.run plugins) w).project.sourceSets = w.project.sourceSets ∧
        (after (a.run plugins) w).project.tasks.find? (which.taskName name) = some (which.taken name s) := by
  cases hc : a.computes with
  | false => exact .inl (h.steady (a.run_steady plugins hc w))
  | true =>
    have hkind : ∀ r o, Settling which name unit s w.project.sourceSets r o →
        ∃ t, o = some t ∧ t.body.kind = which.kind := by
      rintro r o ⟨-, rfl | rfl⟩
      · exact ⟨_, rfl, SourceSetTask.kind_blank⟩
      · exact ⟨_, rfl, SourceSetTask.kind_filled⟩
    obtain ⟨hsets, hwaits | htaken⟩ :=
      a.run_standing (evaluating_settling h.unit hs) hkind plugins hc ha w ⟨rfl, .inl h.task⟩
    · exact .inl ⟨hwaits, hsets ▸ h.unit⟩
    · exact .inr ⟨hsets, htaken⟩

end

/-! ## Runs -/

namespace Machine

variable {m m' : Machine} {actions : List Action} {which : SourceSetTask} {name : String} {unit : UnitId}
  {s : SourceSet}

/-- A round in which an action is performed leaves what the action leaves. -/
theorem next_of_action {a : Action} (h : m.action? = some a) :
    m.next.workspace = after (a.run m.plugins) m.workspace := by
  unfold action? at h
  unfold next
  split at h
  · rename_i reported a rest hwork
    cases h
    rw [hwork]
    exact m.act_workspace reported a rest
  · cases h

/-- Any other leaves the project as it is. -/
theorem next_of_no_action (h : m.action? = none) : m.next.workspace.project = m.workspace.project := by
  refine m.next_keeps (R := fun p q => q = p) ⟨fun _ => rfl, fun h h' => h'.trans h⟩ fun reported a rest hwork => ?_
  rw [action?, hwork] at h
  cases h

/-- In the next round, the task is realized with what the source set is like. No source set is changed in it. -/
structure Takes (m : Machine) (which : SourceSetTask) (name : String) (s : SourceSet) : Prop where
  waits : ∃ unit, m.workspace.project.Awaits which name unit
  sourceSet : m.workspace.project.sourceSets.find? name = some s
  unchanged : m.next.workspace.project.sourceSets = m.workspace.project.sourceSets
  taken : m.next.workspace.project.tasks.find? (which.taskName name) = some (which.taken name s)

/-- One round. -/
theorem next_awaits (hsubmit : ∀ a ∈ m.action?.toList, ¬ a.Submits (which.taskName name) which.kind)
    (h : m.workspace.project.Awaits which name unit) (hs : m.workspace.project.sourceSets.find? name = some s) :
    m.next.workspace.project.Awaits which name unit ∨ m.Takes which name s := by
  cases ha : m.action? with
  | none => exact .inl (next_of_no_action ha ▸ h)
  | some a =>
    have hproject : (after (a.run m.plugins) m.workspace).project = m.next.workspace.project := by
      rw [next_of_action ha]
    have hround := Action.run_awaits m.plugins (hsubmit a (ha ▸ List.mem_singleton_self a)) h hs
    rw [hproject] at hround
    exact hround.imp id fun ⟨hsets, htaken⟩ => ⟨⟨unit, h⟩, hs, hsets, htaken⟩

theorem next_leaves_realized {task : String} {t : Task} (hr : t.realized = true)
    (hsubmit : ∀ a ∈ m.action?.toList, ¬ a.Submits task t.body.kind)
    (ht : m.workspace.project.tasks.find? task = some t) : m.next.workspace.project.tasks.find? task = some t := by
  cases ha : m.action? with
  | none => exact next_of_no_action ha ▸ ht
  | some a =>
    rw [next_of_action ha]
    exact Action.run_leaves_realized m.plugins hr (hsubmit a (ha ▸ List.mem_singleton_self a)) ht

namespace Leads

theorem evolves (h : m.Leads actions m') : Evolves m.workspace.project m'.workspace.project := by
  induction h with
  | here => exact .refl
  | round _ ih => exact ih.trans (next_evolves _)
  | begin _ _ _ ih => exact ih

/-- Over a run in which nothing is submitted to it, a task that waits for its source set waits still, or there was one
    round in which it has taken from the source set, and it is as it was then. -/
theorem takes (h : m.Leads actions m') (hsubmit : ∀ a ∈ actions, ¬ a.Submits (which.taskName name) which.kind)
    (hm : m.workspace.project.Awaits which name unit) (hsound : m.workspace.project.Sound) :
    m'.workspace.project.Awaits which name unit ∨
      ∃ before m₁ later s, m.Leads before m₁ ∧ m₁.Takes which name s ∧ m₁.next.Leads later m' ∧
        actions = before ++ m₁.action?.toList ++ later ∧
        m'.workspace.project.tasks.find? (which.taskName name) = some (which.taken name s) := by
  induction h with
  | here => exact .inl hm
  | @round actions m' h ih =>
    have hlast : ∀ a ∈ m'.action?.toList, ¬ a.Submits (which.taskName name) which.kind :=
      fun a ha => hsubmit a (List.mem_append_right _ ha)
    have hearlier : ∀ a ∈ actions, ¬ a.Submits (which.taskName name) which.kind :=
      fun a ha => hsubmit a (List.mem_append_left _ ha)
    rcases ih hearlier with hwaits | ⟨before, m₁, later, s, h₁, htakes, h₂, rfl, htask⟩
    · -- the source set is there, as it was registered when it was created
      obtain ⟨s, hs⟩ := (hsound.evolves h.evolves).sourceSets.exists_find?_of_unitOf? hwaits.unit
      refine (next_awaits hlast hwaits hs).imp id fun htakes => ?_
      exact ⟨actions, m', [], s, h, htakes, .here, (List.append_nil _).symm, htakes.taken⟩
    · refine .inr ⟨before, m₁, later ++ m'.action?.toList, s, h₁, htakes, h₂.round, by simp, ?_⟩
      exact next_leaves_realized rfl (SourceSetTask.kind_filled ▸ hlast) htask
  | begin step h hwork ih =>
    refine (ih hsubmit).imp id ?_
    rintro ⟨before, m₁, later, s, h₁, htakes, h₂, hactions, htask⟩
    exact ⟨before, m₁, later, s, h₁, htakes, h₂.begin step hwork, hactions, htask⟩

end Leads

end Machine

/-! ## The tasks of a source set that is created -/

namespace Project

/-- Over a run that follows the creation of a source set, and in which nothing is submitted to its compile task or its
    resources task, the task is still to be realized, or there was one round in which it was. If it is still to be, then
    whoever lets it be realized now, it takes from the source set as it is now, and this changes nothing else. If it was,
    it took from the source set as it was in that round, and is as it was then, whatever was done to the source set since.

    Whichever task is realized, no source set changes, and neither does another task unless a lazy value is computed. -/
theorem Reachable.sourceSetTask_takes {m m' : Machine} {actions : List Action} {name : String}
    (h : m.workspace.project.Reachable) (hname : name ∈ m.creations) (hrun : m.next.Leads actions m')
    (which : SourceSetTask) (hsubmit : ∀ a ∈ actions, ¬ a.Submits (which.taskName name) which.kind) :
    let p := m'.workspace.project
    let task := which.taskName name
    ((∃ s t, p.sourceSets.find? name = some s ∧ p.tasks.find? task = some t ∧ t.realized = false ∧
        ∀ ask, ∃ r, ConfigM.realizeWith ask task p = .ok (which.filled name s) { p with tasks := r } ∧
          r.find? task = some (which.taken name s) ∧ ∀ other, other ≠ task → r.find? other = p.tasks.find? other) ∨
      ∃ before m₁ later s, m.next.Leads before m₁ ∧ m₁.Takes which name s ∧ m₁.next.Leads later m' ∧
        actions = before ++ m₁.action?.toList ++ later ∧ p.tasks.find? task = some (which.taken name s)) ∧
    ∀ other, (after (ConfigM.realize other) p).sourceSets = p.sourceSets ∧
      ∀ t, p.tasks.find? other = some t → (∀ c ∈ t.pending, c.AsksNothing) →
        ∀ n, n ≠ other → (after (ConfigM.realize other) p).tasks.find? n = p.tasks.find? n := by
  intro p task
  have hsound := h.sound.evolves m.next_evolves
  obtain ⟨_, q, _, hcreated, hsteady⟩ := Machine.creations_since steady_arranging hname
  obtain ⟨unit, hawaits⟩ := ConfigM.awaits_of_createSourceSet hcreated which
  refine ⟨?_, fun other => ⟨sourceSets_after_realize p other, fun t ht hasks n => find?_after_realize ht hasks⟩⟩
  refine (hrun.takes hsubmit (hawaits.steady hsteady) hsound).imp (fun hwaits => ?_) id
  obtain ⟨s, hs⟩ := (hsound.evolves hrun.evolves).sourceSets.exists_find?_of_unitOf? hwaits.unit
  exact ⟨s, _, hs, hwaits.task, rfl, hwaits.realizeWith hs⟩

/-- The output of `main` is changed before its compile task is realized and once more afterwards, when its classpath is
    replaced as well. The compile task has taken the first change, and the resources task takes the second. -/
theorem Reachable.sourceSetTask_takes_of_two_outputs :
    ∃ (m m' : Machine) (actions : List Action) (s now : SourceSet) (r : Tasks),
      m.workspace.project.Reachable ∧ "main" ∈ m.creations ∧ m.next.Leads actions m' ∧
      (∀ which : SourceSetTask, ∀ a ∈ actions, ¬ a.Submits (which.taskName "main") which.kind) ∧
      (∃ before, ∃ m₁ : Machine, ∃ later,
        actions = before ++ m₁.action?.toList ++ later ∧ m₁.Takes .compile "main" s) ∧
      m'.workspace.project.tasks.find? "compileJava" = some (SourceSetTask.compile.taken "main" s) ∧
      s.output.classesDirs.map (·.text) = ["$buildDir/classes/early"] ∧ s.compileClasspath.isEmpty = false ∧
      m'.workspace.project.sourceSets.find? "main" = some now ∧
      now.output.classesDirs.map (·.text) = ["$buildDir/classes/late"] ∧ now.compileClasspath.isEmpty = true ∧
      now.output.resourcesDir.text = "$buildDir/resources/late" ∧
      ConfigM.realize "processResources" m'.workspace.project =
        .ok (SourceSetTask.resources.filled "main" now) { m'.workspace.project with tasks := r } := by
  let m := (Session.start (.ofSettings {})).machine (.act (.processing .javaConventions))
  have hreachable : m.workspace.project.Reachable := reachable_ofSettings {}
  have hname : "main" ∈ m.creations := by decide +kernel
  have hwork : m.next.work = [] := by
    show (m.act false (.processing .javaConventions) []).work = []
    rw [Machine.act]
    split <;> rfl
  let actions : List Action := [
    .sourceSet (.setOutput "main" ⟨[.build ⟨"classes/early"⟩], .build ⟨"resources/early"⟩⟩),
    .task (.realize .javaCompile "compileJava"),
    .sourceSet (.setOutput "main" ⟨[.build ⟨"classes/late"⟩], .build ⟨"resources/late"⟩⟩),
    .sourceSet (.setClasspath "main" .compile .empty)]
  obtain ⟨m', hrun, -, hsession⟩ := Session.performAll_act_leads actions hwork
  have hworkspace : m'.workspace = _ := congrArg Session.workspace hsession
  have hsubmit : ∀ which : SourceSetTask, ∀ a ∈ actions, ¬ a.Submits (which.taskName "main") which.kind := by
    intro which
    simp [actions, Action.Submits]
  have hcompiled : (m'.workspace.project.tasks.find? "compileJava").map (·.realized) = some true := by
    rw [hworkspace]
    decide +kernel
  have hbody : ((m'.workspace.project.tasks.find? "compileJava").bind (·.body.compiles?)).map (fun j =>
      (j.destination.map (·.text), j.classpath.isEmpty)) = some (["$buildDir/classes/early"], false) := by
    rw [hworkspace]
    decide +kernel
  have hprocessed : (m'.workspace.project.tasks.find? "processResources").map (·.realized) = some false := by
    rw [hworkspace]
    decide +kernel
  have hmain : (m'.workspace.project.sourceSets.find? "main").map (fun s =>
      (s.output.classesDirs.map (·.text), s.compileClasspath.isEmpty, s.output.resourcesDir.text)) =
      some (["$buildDir/classes/late"], true, "$buildDir/resources/late") := by
    rw [hworkspace]
    decide +kernel
  have hcompile := (Reachable.sourceSetTask_takes hreachable hname hrun .compile (hsubmit .compile)).1
  have hresources := (Reachable.sourceSetTask_takes hreachable hname hrun .resources (hsubmit .resources)).1
  have hnames : SourceSetTask.compile.taskName "main" = "compileJava" ∧
      SourceSetTask.resources.taskName "main" = "processResources" := by decide
  rw [hnames.1] at hcompile
  rw [hnames.2] at hresources
  obtain ⟨before, m₁, later, s, -, htakes, -, hactions, htask⟩ := hcompile.resolve_left <| by
    rintro ⟨_, t, -, ht, hr, -⟩
    rw [ht, Option.map_some, hr] at hcompiled
    cases hcompiled
  obtain ⟨now, t, hnow, ht, -, hrealize⟩ := hresources.resolve_right <| by
    rintro ⟨_, _, _, s, -, -, -, -, ht⟩
    rw [ht] at hprocessed
    cases hprocessed
  obtain ⟨r, hr, -⟩ := hrealize (ConfigM.evaluateBusy [.task "processResources"])
  rw [htask] at hbody
  rw [hnow] at hmain
  obtain ⟨hearly, hfiles⟩ := Prod.mk.inj (Option.some.inj hbody)
  obtain ⟨hlate, hrest⟩ := Prod.mk.inj (Option.some.inj hmain)
  obtain ⟨hempty, hplace⟩ := Prod.mk.inj hrest
  exact ⟨m, m', actions, s, now, r, hreachable, hname, hrun, hsubmit, ⟨before, m₁, later, hactions, htakes⟩, htask,
    hearly, hfiles, hnow, hlate, hempty, hplace, hr⟩

end Project

end BuildGraph

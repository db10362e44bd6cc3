/-
  BuildGraph.Proofs.Script.Stages: how far ahead-of-time processing has come, told by the plugins that are
  applied.

  How far processing has come is not recorded anywhere but read off the registries: the processing tasks are
  there or not, and so are the source sets they fill. Both are created in handlers, and the tasks in a
  handler that another one registers. As long as nothing fails, and nothing else creates what is the
  plugin's own (`Step.Apart`), whatever is done comes to the same whenever no plugin and no handler is under
  way.

  - `Step.Licensed`: what is the plugin's own is created only after the plugins it waits for.
  - `Sheltered`: whenever nothing is under way, nothing of the plugin's own is left to do.
  - `Staged.next`: in every round that does not fail, what is there is there for these plugins, and what is
    not there yet is still owed.
  - `Session.stage_of_plugins`: so the stage of processing is that of the plugins.
-/

import BuildGraph.Proofs.Script.Additions
import BuildGraph.Proofs.Script.Processing

namespace BuildGraph

open History Machine Operation Project ScriptM SourceSetName Work

/-! ## What is the plugin's own -/

/-- An action that creates none of the source sets `aot` and `aotTest`, and registers and wires none of the tasks
    `processAot` and `processTestAot`. -/
def Action.isApart (a : Action) : Bool :=
  a.createdSourceSets.all (· ∉ [derivedMain, derivedTest]) &&
    a.registeredTasks.all (· ∉ [ProcessingKind.application.taskName, (ProcessingKind.tests main).taskName])

/-- A step made of such actions and of the plugin for ahead-of-time processing, whose identity belongs to it alone. -/
inductive Step.Apart : Step → Prop
  | act {a : Action} : a.isApart = true → Apart (.act a)
  | apply {id : PluginId} {reported : Bool} {body : List Step} : id ≠ Plugin.aotId → (∀ s ∈ body, Apart s) →
    Apart (.apply id reported body)
  | aot {reported : Bool} : Apart (.apply Plugin.aotId reported Plugin.aot.body)
  | withPlugin {id : PluginId} {reported : Bool} {body : List Step} : (∀ s ∈ body, Apart s) →
    Apart (.withPlugin id reported body)
  | attempt {reported : Bool} {body : List Step} : (∀ s ∈ body, Apart s) → Apart (.attempt reported body)

theorem Action.isApart_iff {a : Action} : a.isApart = true ↔
    ∀ kind : ProcessingKind, kind.derived ∉ a.createdSourceSets ∧ kind.taskName ∉ a.registeredTasks := by
  have hforall : ∀ {as : List String} {x y : String}, as.all (· ∉ [x, y]) = true ↔ x ∉ as ∧ y ∉ as := by
    intro as x y
    simp only [List.all_eq_true, decide_eq_true_eq, List.mem_cons, List.not_mem_nil, or_false, not_or]
    exact ⟨fun h => ⟨fun hx => (h x hx).1 rfl, fun hy => (h y hy).2 rfl⟩,
      fun h z hz => ⟨fun he => h.1 (he ▸ hz), fun he => h.2 (he ▸ hz)⟩⟩
  rw [isApart, Bool.and_eq_true, hforall, hforall]
  constructor
  · rintro ⟨⟨hmain, htest⟩, happlication, htests⟩ kind
    cases kind with
    | application => exact ⟨hmain, happlication⟩
    | tests m => exact ⟨htest, htests⟩
  · intro h
    exact ⟨⟨(h .application).1, (h (.tests main)).1⟩, (h .application).2, (h (.tests main)).2⟩

namespace Plugin

theorem java_apart : java.step.Apart := by
  refine .apply (show javaId ≠ aotId by decide) fun s hs => ?_
  cases List.mem_singleton.mp hs
  exact .act (by decide)

theorem boot_apart (mainClass : Option String) : (boot mainClass).step.Apart := by
  refine .apply (show bootId ≠ aotId by decide) fun s hs => ?_
  cases List.mem_singleton.mp hs
  exact .act rfl

theorem aot_apart : aot.step.Apart := .aot

end Plugin

namespace Step

/-! To derive a source set and to wire a processing task is the plugin's own, wherever it is to be done. -/

theorem derive_not_apart (kind : ProcessingKind) (input : String) : ¬ (Step.act (.derive kind input)).Apart := by
  intro h
  cases h with
  | act ha => exact (Action.isApart_iff.mp ha kind).1 (List.mem_singleton_self _)

theorem wire_not_apart (kind : ProcessingKind) (input : String) : ¬ (Step.act (.wire kind input)).Apart := by
  intro h
  cases h with
  | act ha => exact (Action.isApart_iff.mp ha kind).2 (List.mem_singleton_self _)

theorem withPlugin_not_apart {id : PluginId} {reported : Bool} {body : List Step} {s : Step} (hs : s ∈ body)
    (h : ¬ s.Apart) : ¬ (Step.withPlugin id reported body).Apart := by
  intro hstep
  cases hstep with
  | withPlugin hbody => exact h (hbody s hs)

end Step

/-- An action that creates what is the plugin's own only when the plugins it waits for are `known` to be applied. -/
structure Action.Licensed (known : List PluginId) (a : Action) : Prop where
  derived : ∀ kind : ProcessingKind, kind.derived ∈ a.createdSourceSets → Plugin.javaId ∈ known ∧ Plugin.aotId ∈ known
  wired : ∀ kind : ProcessingKind, kind.taskName ∈ a.registeredTasks →
    Plugin.javaId ∈ known ∧ Plugin.aotId ∈ known ∧ Plugin.bootId ∈ known

/-- A step in which this is so. Inside a plugin, this one is applied, and inside a handler, the one it waits for. -/
inductive Step.Licensed : List PluginId → Step → Prop
  | act {known : List PluginId} {a : Action} : a.Licensed known → Licensed known (.act a)
  | apply {known : List PluginId} {id : PluginId} {reported : Bool} {body : List Step} :
    (∀ s ∈ body, Licensed (id :: known) s) → (id = Plugin.aotId → body = Plugin.aot.body) →
    Licensed known (.apply id reported body)
  | withPlugin {known : List PluginId} {id : PluginId} {reported : Bool} {body : List Step} :
    (∀ s ∈ body, Licensed (id :: known) s) → Licensed known (.withPlugin id reported body)
  | attempt {known : List PluginId} {reported : Bool} {body : List Step} : (∀ s ∈ body, Licensed known s) →
    Licensed known (.attempt reported body)

theorem Action.Licensed.mono {known more : List PluginId} {a : Action} (h : a.Licensed known) (hsub : known ⊆ more) :
    a.Licensed more where
  derived kind hk := (h.derived kind hk).imp (@hsub _) (@hsub _)
  wired kind hk := (h.wired kind hk).imp (@hsub _) (.imp (@hsub _) (@hsub _))

namespace Step

theorem Licensed.mono {known more : List PluginId} {s : Step} (h : s.Licensed known) (hsub : known ⊆ more) :
    s.Licensed more := by
  induction h generalizing more with
  | act ha => exact .act (ha.mono hsub)
  | apply _ hbody ih => exact .apply (fun s hs => ih s hs (List.cons_subset_cons _ hsub)) hbody
  | withPlugin _ ih => exact .withPlugin fun s hs => ih s hs (List.cons_subset_cons _ hsub)
  | attempt _ ih => exact .attempt fun s hs => ih s hs hsub

theorem licensed_hereditary : Hereditary fun known s => s.Licensed known where
  mono hsub h := h.mono hsub
  apply h := by
    cases h with
    | apply hbody _ => exact hbody
  withPlugin h := by
    cases h with
    | withPlugin hbody => exact hbody
  attempt h := by
    cases h with
    | attempt hbody => exact hbody

/-- The plugin itself keeps to this. -/
theorem licensed_aot (known : List PluginId) : ∀ s ∈ Plugin.aot.body, s.Licensed (Plugin.aotId :: known) := by
  have hwired : ∀ a : Action, a.Licensed (Plugin.bootId :: Plugin.javaId :: Plugin.aotId :: known) :=
    fun a => ⟨fun _ _ => by simp, fun _ _ => by simp⟩
  have hderived : ∀ kind input, (Action.derive kind input).Licensed (Plugin.javaId :: Plugin.aotId :: known) :=
    fun kind input => ⟨fun _ _ => by simp, fun _ hk => absurd hk List.not_mem_nil⟩
  have hwire : ∀ s ∈ Plugin.wireProcessing, s.Licensed (Plugin.bootId :: Plugin.javaId :: Plugin.aotId :: known) := by
    simp only [Plugin.wireProcessing, Plugin.registerProcessing, List.cons_append, List.nil_append, List.forall_mem_cons]
    exact ⟨.act (hwired _), .act (hwired _), .act (hwired _), .act (hwired _), by simp⟩
  have hderive : ∀ s ∈ Plugin.deriveSourceSets, s.Licensed (Plugin.javaId :: Plugin.aotId :: known) := by
    simp only [Plugin.deriveSourceSets, List.forall_mem_cons]
    exact ⟨.act (hderived .application _), .act (hderived (.tests main) _), .withPlugin hwire, by simp⟩
  intro s hs
  cases List.mem_singleton.mp hs
  exact .withPlugin hderive

/-- What leaves to the plugin what is its own does not depend on what is applied. -/
theorem Apart.licensed {s : Step} (h : s.Apart) (known : List PluginId) : s.Licensed known := by
  induction h generalizing known with
  | act ha =>
    have hnone := Action.isApart_iff.mp ha
    exact .act ⟨fun kind hk => absurd hk (hnone kind).1, fun kind hk => absurd hk (hnone kind).2⟩
  | apply hid _ ih => exact .apply (fun s hs => ih s hs _) fun he => absurd he hid
  | aot => exact .apply (licensed_aot known) fun _ => rfl
  | withPlugin _ ih => exact .withPlugin fun s hs => ih s hs _
  | attempt _ ih => exact .attempt fun s hs => ih s hs _

end Step

/-! ## What is there, and why -/

/-- The source sets and tasks of the plugin are there only after the plugins they wait for. -/
structure Project.Grounded (applied : List PluginId) (p : Project) : Prop where
  derived : ∀ kind : ProcessingKind, kind.derived ∈ p.sourceSets.names →
    Plugin.javaId ∈ applied ∧ Plugin.aotId ∈ applied
  wired : ∀ kind : ProcessingKind, kind.taskName ∈ p.tasks.names →
    Plugin.javaId ∈ applied ∧ Plugin.aotId ∈ applied ∧ Plugin.bootId ∈ applied

theorem Project.Grounded.mono {applied more : List PluginId} {p : Project} (h : p.Grounded applied)
    (hsub : applied ⊆ more) : p.Grounded more where
  derived kind hk := (h.derived kind hk).imp (@hsub _) (@hsub _)
  wired kind hk := (h.wired kind hk).imp (@hsub _) (.imp (@hsub _) (@hsub _))

/-- No processing task is called like a task of a source set. -/
theorem ProcessingKind.taskName_not_mem_tasks (kind : ProcessingKind) (name : String) :
    kind.taskName ∉ SourceSetName.tasks name := by
  simp only [SourceSetName.tasks, List.mem_cons, List.not_mem_nil, or_false, not_or]
  exact ⟨taskName_ne (taskRank_compileJava name) kind, taskName_ne (taskRank_processResources name) kind,
    taskName_ne (taskRank_classes name) kind⟩

/-- What an action adds it may add. -/
theorem Action.Licensed.run_grounded {applied : List PluginId} {a : Action} (h : a.Licensed applied) (plugins : Plugins)
    (w : Workspace) : Keeps (Workspace.On (Preserves (Grounded applied))) (a.run plugins) w := by
  refine (a.run_adds plugins w).imp fun v hadds hw => ⟨fun kind hk => ?_, fun kind hk => ?_⟩
  · exact (hadds.sourceSets _ hk).elim (hw.derived kind) (h.derived kind)
  · rcases hadds.tasks _ hk with hk | hk | ⟨s, -, hs⟩
    · exact hw.wired kind hk
    · exact h.wired kind hk
    · exact absurd hs (kind.taskName_not_mem_tasks s)

/-! ## What is left when nothing is under way -/

/-- A piece of work that may be left to do when nothing is under way: what the script does itself, or the answer to
    something that was done. -/
def Work.Outer : Work → Prop
  | .step _ s => s.Apart
  | .answer _ => True
  | .attempted _ => True
  | _ => False

/-- All other work is done before some plugin or handler has come to its end. -/
def Sheltered : List Work → Prop
  | [] => True
  | w :: rest => (w.Outer ∨ ∃ v ∈ rest, v.isUnderway = true) ∧ Sheltered rest

namespace Sheltered

variable {ps qs : Plugins} {ws vs rest : List Work} {happening : List Happening}

theorem cons_answer (h : Sheltered rest) (reported : Bool) : Sheltered (.answer reported :: rest) := ⟨.inl trivial, h⟩

/-- Before the end of a plugin or a handler, anything may be done. -/
theorem under (h : Sheltered rest) (hrest : ∃ v ∈ rest, v.isUnderway = true) (ws : List Work) : Sheltered (ws ++ rest) := by
  induction ws with
  | nil => exact h
  | cons w ws ih =>
    obtain ⟨v, hv, hunder⟩ := hrest
    exact ⟨.inr ⟨v, List.mem_append_right _ hv, hunder⟩, ih⟩

theorem append_workOf (h : Sheltered rest) {inner : Bool} {body : List Step} (hbody : ∀ s ∈ body, s.Apart) :
    Sheltered (workOf inner body ++ rest) := by
  induction body with
  | nil => exact h
  | cons s body ih =>
    obtain ⟨hs, hbody⟩ := List.forall_mem_cons.mp hbody
    exact ⟨.inl hs, ih hbody⟩

theorem turn (h : Sheltered ws) (ht : Turn ps ws happening qs vs) (hok : failures happening = []) : Sheltered vs := by
  cases ht with
  | idle => exact h
  | acted => exact h.2
  | failed => cases hok
  | appliedAgain => exact h.2.cons_answer _
  | @applied reported _ id =>
    have hrelease : Sheltered (.release id :: .answer reported :: _) :=
      ⟨.inr ⟨_, List.mem_cons_self .., rfl⟩, h.2.cons_answer reported⟩
    exact hrelease.under ⟨_, List.mem_cons_self .., rfl⟩ _
  | queued => exact h.2.cons_answer _
  | immediate => exact ⟨.inr ⟨_, List.mem_cons_self .., rfl⟩, h.2.cons_answer _⟩
  | @attempt reported inner body rest =>
    have hanswer : Sheltered (.attempted reported :: rest) := ⟨.inl trivial, h.2⟩
    rcases h.1 with hattempt | ⟨v, hv, hunder⟩
    · cases hattempt with
      | attempt hbody => exact hanswer.append_workOf hbody
    · exact hanswer.under ⟨v, List.mem_cons_of_mem _ hv, hunder⟩ _
  | started => exact h.2.under (h.1.resolve_left id) _
  | released => exact h.2.under (h.1.resolve_left id) _
  | answered => exact h.2
  | attempted => exact h.2

/-- What lies ahead when nothing is under way is what the script does itself. -/
theorem apart_of_ahead {s : Step} (h : Sheltered ws) (hrest : ∀ w ∈ ws, w.isUnderway = false) (hs : Ahead ws s) :
    s.Apart := by
  induction ws with
  | nil => exact absurd hs Ahead.not_nil
  | cons w ws ih =>
    obtain ⟨hw, hlater⟩ := List.forall_mem_cons.mp hrest
    have houter : w.Outer := by
      refine h.1.resolve_right ?_
      rintro ⟨v, hv, hunder⟩
      rw [hlater v hv] at hunder
      cases hunder
    rcases hs with ⟨reported, hs⟩ | ⟨x, hx, hs⟩
    · rcases List.mem_cons.mp hs with rfl | hs
      · exact houter
      · exact ih h.2 hlater (.inl ⟨reported, hs⟩)
    · rcases List.mem_cons.mp hx with rfl | hx
      · exact houter.elim
      · exact ih h.2 hlater (.inr ⟨x, hx, hs⟩)

end Sheltered

/-! ## What is still owed -/

theorem Project.processingState_eq (p : Project) : p.processingState =
    if ProcessingKind.application.taskName ∈ p.tasks.names ∧ (ProcessingKind.tests main).taskName ∈ p.tasks.names then
      .fullyWired
    else if derivedMain ∈ p.sourceSets.names ∧ derivedTest ∈ p.sourceSets.names then .basePluginSeen
    else .unconfigured := by
  simp only [processingState, Bool.and_eq_true, Tasks.contains_iff, SourceSets.contains_iff]

theorem Project.Derived.mem {p : Project} {derived existing : String} (h : p.Derived derived existing) :
    derived ∈ p.sourceSets.names := by
  obtain ⟨s, hs, -⟩ := h.outfitted.output
  obtain ⟨u, hu, -⟩ := SourceSets.exists_lookup_of_find? hs
  exact SourceSets.lookup_isSome_iff.mp (Option.isSome_iff_exists.mpr ⟨u, hu⟩)

/-- A processing task that was wired is there. -/
theorem ConfigM.mem_of_wireProcessingTask {kind : ProcessingKind} {derived input classpath task : String}
    {outputs : ProcessingOutputs} {p q : Project}
    (h : wireProcessingTask kind derived input classpath outputs p = .ok task q) : kind.taskName ∈ q.tasks.names := by
  obtain ⟨-, s, q₁, q₂, q₃, q₄, q₅, q₆, -, -, -, -, h₄, h₅, h₆, h₇⟩ := wireProcessingTask_ok h
  have hq₅ : Evolves q₄ q₅ := (evolves_addDependency ..).of_ok h₅
  -- the order of the tasks is of no concern
  cases h₆
  cases h₇
  exact hq₅.mem_tasks_names (mem_of_registerProcessingTask h₄)

/-- The derived source set is there, or due once the Java conventions are; the processing task is there, or due once
    the main class is known as well. -/
structure Forthcoming (ps : Plugins) (ws : List Work) (p : Project) (kind : ProcessingKind) (input : String) : Prop where
  derived : Expected ps ws Plugin.javaId (.act (.derive kind input)) (kind.derived ∈ p.sourceSets.names)
  wired : Expected ps ws Plugin.javaId (.withPlugin Plugin.bootId false Plugin.wireProcessing)
    (Expected ps ws Plugin.bootId (.act (.wire kind input)) (kind.taskName ∈ p.tasks.names))

/-- What holds while a script of this kind runs and nothing fails. -/
structure Staged (log : List Happening) (ps : Plugins) (ws : List Work) (p : Project) : Prop where
  recorded : Recorded log ps ws
  inOrder : InOrder log ps ws
  licensed : Throughout (fun known s => s.Licensed known) ps ws
  sheltered : Sheltered ws
  sound : p.Sound
  grounded : p.Grounded ps.applied
  processing : ∀ kind input, Plugin.Processes kind input → Plugin.aotId ∈ ps.applied →
    Owed ws (.withPlugin Plugin.javaId false Plugin.deriveSourceSets) (Forthcoming ps ws p kind input)

namespace Staged

variable {m : Machine} {log : List Happening} {kind : ProcessingKind} {input : String}

section

variable (h : Staged log m.plugins m.work m.workspace.project) (hok : failures m.happening = [])

include h hok

theorem forthcoming_next (hk : Plugin.Processes kind input)
    (hf : Forthcoming m.plugins m.work m.workspace.project kind input) :
    Forthcoming m.next.plugins m.next.work m.next.workspace.project kind input := by
  have ht := m.next_turn
  have hq := m.next_evolves
  refine ⟨?_, ?_⟩
  · refine hf.derived.turn ht hok h.inOrder.applied (fun _ hfirst => ?_) fun _ hmem => hq.retains.sourceSets.subset hmem
    obtain ⟨answer, hrun⟩ := next_ok hfirst hok
    exact (derived_of_run h.sound hrun).mem
  · refine hf.wired.turn ht hok h.inOrder.applied (fun _ hfirst => .of_withPlugin hfirst ht hk.wire_mem) fun _ hw => ?_
    refine hw.turn ht hok h.inOrder.applied (fun _ hfirst => ?_) fun _ hmem => hq.mem_tasks_names hmem
    obtain ⟨answer, hrun⟩ := next_ok hfirst hok
    obtain ⟨_, _, -, hwire⟩ := wire_eq_ok hrun
    exact ConfigM.mem_of_wireProcessingTask hwire

theorem processing_next (hk : Plugin.Processes kind input) (haot : Plugin.aotId ∈ m.next.plugins.applied) :
    Owed m.next.work (.withPlugin Plugin.javaId false Plugin.deriveSourceSets)
      (Forthcoming m.next.plugins m.next.work m.next.workspace.project kind input) := by
  have ht := m.next_turn
  refine .of_applied (fun reported body hfirst => ?_) (h.processing kind input hk) ht hok (fun hfirst => ?_)
    (h.forthcoming_next hok hk) haot
  · obtain ⟨outer, rest, hwork⟩ := hfirst
    cases h.licensed.first hwork with
    | apply _ hbody => exact hbody rfl ▸ List.mem_cons_self ..
  · exact ⟨.of_withPlugin hfirst ht hk.derive_mem, .of_withPlugin hfirst ht Plugin.Processes.wireProcessing_mem⟩

/-- In every round that does not fail, what is not there yet is still owed. -/
theorem next : Staged (log ++ m.happening) m.next.plugins m.next.work m.next.workspace.project where
  recorded := h.recorded.turn m.next_turn
  inOrder := h.inOrder.turn h.recorded m.next_turn hok
  licensed := h.licensed.turn Step.licensed_hereditary m.next_turn h.inOrder.applied
  sheltered := h.sheltered.turn m.next_turn hok
  sound := h.sound.evolves m.next_evolves
  grounded := by
    have hkeeps : Preserves (Grounded m.plugins.applied) m.workspace.project m.next.workspace.project := by
      refine next_keeps (preserves_frame _) fun reported a rest hwork => ?_
      cases h.licensed.first hwork with
      | act ha => exact ha.run_grounded m.plugins m.workspace
    exact (hkeeps h.grounded).mono m.next_turn.prefix_applied.subset
  processing _ _ hk := h.processing_next hok hk

end

/-! ## When nothing is under way -/

section

variable (h : Staged log m.plugins m.work m.workspace.project) (hrest : m.AtRest)

include h hrest

/-- What is owed and the plugin's own has come about. -/
theorem met {s : Step} {P : Prop} (ho : Owed m.work s P) (hs : ¬ s.Apart) : P :=
  ho.resolve_left fun hahead => hs (h.sheltered.apart_of_ahead hrest hahead)

theorem forthcoming (hk : Plugin.Processes kind input) (haot : Plugin.aotId ∈ m.plugins.applied) :
    Forthcoming m.plugins m.work m.workspace.project kind input :=
  h.met hrest (h.processing kind input hk haot) (Step.withPlugin_not_apart hk.derive_mem (Step.derive_not_apart kind input))

theorem derived (hk : Plugin.Processes kind input) (hjava : Plugin.javaId ∈ m.plugins.applied)
    (haot : Plugin.aotId ∈ m.plugins.applied) : kind.derived ∈ m.workspace.project.sourceSets.names := by
  have hreleases : ∀ id, id ∉ releases m.work := by simp [hrest.releases]
  exact h.met hrest ((h.forthcoming hrest hk haot).derived.owed h.inOrder hjava (hreleases _))
    (Step.derive_not_apart kind input)

theorem wired (hk : Plugin.Processes kind input) (hjava : Plugin.javaId ∈ m.plugins.applied)
    (haot : Plugin.aotId ∈ m.plugins.applied) (hboot : Plugin.bootId ∈ m.plugins.applied) :
    kind.taskName ∈ m.workspace.project.tasks.names := by
  have hreleases : ∀ id, id ∉ releases m.work := by simp [hrest.releases]
  have hwiring := h.met hrest ((h.forthcoming hrest hk haot).wired.owed h.inOrder hjava (hreleases _))
    (Step.withPlugin_not_apart hk.wire_mem (Step.wire_not_apart kind input))
  exact h.met hrest (hwiring.owed h.inOrder hboot (hreleases _)) (Step.wire_not_apart kind input)

/-- The tasks and source sets that the stage is told by are there if and only if the plugins they wait for are
    applied. -/
theorem stage :
    (m.workspace.project.processingState = .fullyWired ↔
      Plugin.javaId ∈ m.plugins.applied ∧ Plugin.aotId ∈ m.plugins.applied ∧ Plugin.bootId ∈ m.plugins.applied) ∧
    (m.workspace.project.processingState = .basePluginSeen ↔
      Plugin.aotId ∈ m.plugins.applied ∧ Plugin.javaId ∈ m.plugins.applied ∧ Plugin.bootId ∉ m.plugins.applied) ∧
    (m.workspace.project.processingState = .unconfigured ↔
      ¬ (Plugin.aotId ∈ m.plugins.applied ∧ Plugin.javaId ∈ m.plugins.applied)) := by
  have hwired : (ProcessingKind.application.taskName ∈ m.workspace.project.tasks.names ∧
        (ProcessingKind.tests main).taskName ∈ m.workspace.project.tasks.names) ↔
      Plugin.javaId ∈ m.plugins.applied ∧ Plugin.aotId ∈ m.plugins.applied ∧ Plugin.bootId ∈ m.plugins.applied :=
    ⟨fun hp => h.grounded.wired .application hp.1, fun ⟨hjava, haot, hboot⟩ =>
      ⟨h.wired hrest .application hjava haot hboot, h.wired hrest .tests hjava haot hboot⟩⟩
  have hderived : (derivedMain ∈ m.workspace.project.sourceSets.names ∧
        derivedTest ∈ m.workspace.project.sourceSets.names) ↔
      Plugin.javaId ∈ m.plugins.applied ∧ Plugin.aotId ∈ m.plugins.applied :=
    ⟨fun hp => h.grounded.derived .application hp.1, fun ⟨hjava, haot⟩ =>
      ⟨h.derived hrest .application hjava haot, h.derived hrest .tests hjava haot⟩⟩
  simp only [processingState_eq, hwired, hderived]
  by_cases hjava : Plugin.javaId ∈ m.plugins.applied <;> by_cases haot : Plugin.aotId ∈ m.plugins.applied <;>
    by_cases hboot : Plugin.bootId ∈ m.plugins.applied <;> simp [hjava, haot, hboot]

end

end Staged

/-! ## Whole scripts -/

namespace Session

theorem start_staged (settings : Settings) : Staged [] (start (.ofSettings settings)).plugins [] (.ofSettings settings) where
  recorded := start_recorded _
  inOrder := start_inOrder _
  licensed := ⟨by simp, by simp [start]⟩
  sheltered := trivial
  sound := (reachable_ofSettings settings).sound
  grounded := ⟨fun _ hk => absurd hk List.not_mem_nil, fun _ hk => absurd hk List.not_mem_nil⟩
  processing := by simp [start]

/-- A step is begun where the one before it ended. -/
theorem machine_staged {s : Session} {log : List Happening} (h : Staged log s.plugins [] s.workspace.project)
    {step : Step} (hstep : step.Apart) :
    Staged log (s.machine step).plugins (s.machine step).work (s.machine step).workspace.project where
  recorded := machine_recorded h.recorded step
  inOrder := machine_inOrder h.inOrder step
  licensed := ⟨List.forall_mem_singleton.mpr (hstep.licensed _), h.licensed.waiting⟩
  sheltered := ⟨.inl hstep, trivial⟩
  sound := h.sound
  grounded := h.grounded
  processing kind input hk haot := by
    refine (h.processing kind input hk haot).mono (List.nil_subset _) fun hf => ⟨?_, ?_⟩
    · exact hf.derived.mono (List.nil_subset _) id
    · exact hf.wired.mono (List.nil_subset _) fun hw => hw.mono (List.nil_subset _) id

theorem staged_carried : Carried Step.Apart Staged := ⟨Staged.next, machine_staged⟩

/-- At any point of a script at which nothing has failed and no plugin and no handler is under way, the stage of
    processing is that of the plugins that are applied: in whatever order and however often they were, inside what
    plugins, handlers and attempts, and whatever else was done, as long as nothing but ahead-of-time processing
    creates what is its own. The other two plugins may do what they like. -/
theorem stage_of_plugins (settings : Settings) (before : List Step) (step : Step) (n : Nat)
    (hbefore : ∀ s ∈ before, s.Apart) (hstep : step.Apart) :
    let s := (performAll before (start (.ofSettings settings))).2
    let m := (s.machine step).run n
    let log := history before (start (.ofSettings settings)) ++ (s.machine step).history n
    let p := m.workspace.project
    let ids := m.plugins.applied
    failures log = [] → m.AtRest →
      (p.processingState = .fullyWired ↔ Plugin.javaId ∈ ids ∧ Plugin.aotId ∈ ids ∧ Plugin.bootId ∈ ids) ∧
      (p.processingState = .basePluginSeen ↔ Plugin.aotId ∈ ids ∧ Plugin.javaId ∈ ids ∧ Plugin.bootId ∉ ids) ∧
      (p.processingState = .unconfigured ↔ ¬ (Plugin.aotId ∈ ids ∧ Plugin.javaId ∈ ids)) := by
  intro s m log p ids hok hrest
  exact (staged_carried.during n (start_staged settings) hbefore hstep hok).stage hrest

/-- The main class is known first, and the Java conventions are applied inside another plugin, in an attempt. Only then
    does a handler that waits for them apply ahead-of-time processing, and all of it is done before the end. -/
theorem stage_of_plugins_nested :
    let before : List Step := [.withPlugin Plugin.javaId false [Plugin.aot.step], (Plugin.boot none).step]
    let step : Step := .apply "suite" false [.attempt false [Plugin.java.step], Plugin.aot.step]
    let s := (performAll before (start (.ofSettings {}))).2
    let m := (s.machine step).run (s.machine step).weight
    (∀ s ∈ before, s.Apart) ∧ step.Apart ∧
      failures (history before (start (.ofSettings {})) ++ (s.machine step).history (s.machine step).weight) = [] ∧
      (s.machine step).AtRest ∧ s.workspace.project.processingState = .unconfigured ∧
      m.AtRest ∧ m.workspace.project.processingState = .fullyWired := by
  intro before step s m
  have hbefore : ∀ s ∈ before, s.Apart := by
    simp only [before, List.forall_mem_cons]
    exact ⟨.withPlugin (by simpa using Plugin.aot_apart), Plugin.boot_apart none, by simp⟩
  have hstep : step.Apart := by
    refine .apply (by decide) ?_
    simp only [List.forall_mem_cons]
    exact ⟨.attempt (by simpa using Plugin.java_apart), Plugin.aot_apart, by simp⟩
  have hearlier : failures (history before (start (.ofSettings {})) ++ (s.machine step).history 0) = [] := rfl
  have hidle : ((s.machine step).run 0).AtRest := by
    intro w hw
    cases List.mem_singleton.mp hw
    rfl
  have hok : failures (history before (start (.ofSettings {})) ++ (s.machine step).history (s.machine step).weight) = [] :=
    List.isEmpty_iff.mp (by decide +kernel)
  have hrest : m.AtRest := by
    intro w hw
    have hnone : m.work = [] := (s.machine step).finish_work
    rw [hnone] at hw
    cases hw
  obtain ⟨-, -, hunconfigured⟩ := stage_of_plugins {} before step 0 hbefore hstep hearlier hidle
  obtain ⟨hwired, -, -⟩ := stage_of_plugins {} before step _ hbefore hstep hok hrest
  have hs : s = (performAll before (start (.ofSettings {}))).2 := rfl
  have hm : m = (s.machine step).run (s.machine step).weight := rfl
  have hbegun : ∀ s : Session, ((s.machine step).run 0).workspace = s.workspace := fun _ => rfl
  rw [← hs, hbegun] at hunconfigured
  rw [← hs, ← hm] at hwired
  exact ⟨hbefore, hstep, hok, hidle, hunconfigured.mpr (by decide +kernel), hrest, hwired.mpr (by decide +kernel)⟩

end Session

end BuildGraph

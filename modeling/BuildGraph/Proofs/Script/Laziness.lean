/-
  BuildGraph.Proofs.Script.Laziness: what a script leaves to be done, and when it is done.

  Only some actions ask for something: they realize a task, finalize the project or get a lazy value. Whatever else a
  script does, inside of whatever plugins, handlers and attempts, it leaves what is to be done for later.

  Ahead-of-time processing is the case in point. The main class is given to one plugin and read from a task by a lazy
  value that another plugin makes in a handler of a handler, for a third task. When the script has come to its end,
  none of this was done, and it is done piece by piece when it is asked for.

  - `Action.run_postpones`: an action that asks for nothing adds to what waits, and that is all it does to what is there.
  - `Machine.Leads.defers`: so does a run of such actions.
  - `Asleep.next`: in every round that does not fail, the processing task and the main class still wait, or are owed.
  - `Session.lazy`: so no run of such actions realizes a task or runs a configurator, and when the three plugins were
    applied, each task on the way to the main class is realized when it is asked for, and not before.
-/

import BuildGraph.Proofs.Project.Laziness
import BuildGraph.Proofs.Script.Processing
import BuildGraph.Proofs.Script.SourceSetTask

namespace BuildGraph

open History Machine Operation Project ScriptM Work

/-! ## Actions that ask for nothing -/

def TaskAction.demands : TaskAction → Bool
  | .realize .. | .missingInput .. | .evaluate .. | .finalize | .position .. => true
  | _ => false

/-- Whether an action asks for tasks to be realized or for a lazy value. To configure a task is not to ask for it. -/
def Action.demands : Action → Bool
  | .task a => a.demands
  | .value a => a.computes
  | _ => false

namespace Project

theorem idle_editing : Editing Idle where
  toFrame := idle_frame
  supply := idle_supply
  values _ _ _ _ := .of_eq rfl rfl
  reshape _ _ p _ _ := idle_onSourceSets _ p
  dependsOn _ _ := idle_dependsOn _ _ _

/-- Adding lazy values leaves what waits as it is. -/
theorem postpones_supplying (submitted : String → TaskKind → Prop) :
    Supplying fun p q => p.Dormant → Postpones submitted p q where
  toFrame := postpones_frame
  supply p _ hcells := (idle_supply p hcells).postpones fun _ _ ht => ht

end Project

section

variable {w : Workspace} {a : Action}

theorem Action.creationKeeps_idle (a : Action) : a.CreationKeeps Idle := by
  cases a with
  | sourceSet a =>
    cases a with
    | create name => exact idle_createSourceSet name
    | insert name => exact idle_onSourceSets _
    | derive name existing => exact idle_createSourceSet name
    | setClasspath sourceSet which files => exact idle_onSourceSets _
    | _ => trivial
  | task a =>
    cases a with
    | register name setup => exact idle_registerTask name (.blank setup.kind)
    | _ => trivial
  | processing a =>
    cases a with
    | javaConventions => exact ⟨idle_createSourceSet _, idle_createSourceSet _⟩
    | mainClassTask mainClass => exact idle_registerTask _ (.blank .resolveMainClassName)
    | wire kind derived input classpath outputs => exact idle_wireProcessingTask kind derived input classpath
    | _ => trivial
  | _ => trivial

/-- Configuring a task submits something to it if it is there and has a body of the right type, and does nothing
    otherwise. -/
theorem Action.run_configure_postpones (plugins : Plugins) (name : String) (setup : TaskSetup)
    (hw : w.project.Dormant) :
    Postpones (fun other kind => (Action.task (.configure name setup)).Submits other kind) w.project
      (after ((Action.task (.configure name setup)).run plugins) w).project := by
  by_cases hkind : ∀ t, w.project.tasks.find? name = some t → setup.kind = t.body.kind
  · have hpostpones := (postpones_supplying fun other _ => other = name).configureTask (w := w) setup
      (postpones_configure name) hw
    refine ⟨hpostpones.dormant, hpostpones.defers, fun other t hother ht => ?_⟩
    refine hpostpones.others other t (fun he => ?_) ht
    subst he
    exact hother ⟨rfl, hkind t ht⟩
  · push Not at hkind
    obtain ⟨t, ht, hne⟩ := hkind
    rw [run_configure_of_kind_ne plugins ht (Ne.symm hne)]
    exact postpones_frame.refl w.project hw

/-- However far it comes, an action that asks for nothing leaves what waits as it is, and at most adds to what waits
    for the task it submits something to. -/
theorem Action.run_postpones (plugins : Plugins) (ha : a.demands = false) (hw : w.project.Dormant) :
    Postpones a.Submits w.project (after (a.run plugins) w).project := by
  cases hc : a.computes with
  | false =>
    have hidle : Keeps (Workspace.On Idle) (a.run plugins) w :=
      a.run_edits idle_editing plugins hc (idle_arranging.toAdjusting.changesKeep a.creationKeeps_idle) w
    exact hidle.postpones (a.run_steady plugins hc w).tasks hw
  | true =>
    -- an action that computes and asks for nothing configures a task
    cases a with
    | task a =>
      cases a with
      | configure name setup => exact run_configure_postpones plugins name setup hw
      | realize kind name => cases ha
      | missingInput kind name => cases ha
      | evaluate kind name field => cases ha
      | finalize => cases ha
      | position name => cases ha
      | _ => cases hc
    | value a =>
      cases a with
      | get name => cases ha
      | _ => cases hc
    | _ => cases hc

end

/-! ## Runs -/

namespace Machine

variable {m m' : Machine} {actions : List Action}

/-- One round. -/
theorem next_postpones (hdemands : ∀ a ∈ m.action?.toList, a.demands = false) (hm : m.workspace.project.Dormant) :
    Postpones (fun task kind => ∃ a ∈ m.action?.toList, a.Submits task kind) m.workspace.project
      m.next.workspace.project := by
  cases ha : m.action? with
  | none =>
    rw [next_of_no_action ha]
    exact postpones_frame.refl _ hm
  | some a =>
    have hmem : a ∈ m.action?.toList := ha ▸ List.mem_singleton_self a
    have hpostpones := Action.run_postpones m.plugins (hdemands a hmem) hm
    rw [next_of_action ha]
    refine ⟨hpostpones.dormant, hpostpones.defers, fun task t hsubmits => hpostpones.others task t fun hs => ?_⟩
    exact hsubmits ⟨a, List.mem_singleton_self a, hs⟩

/-- Over a run in which nothing is asked for, all that waits still waits. -/
theorem Leads.defers (h : m.Leads actions m') (hdemands : ∀ a ∈ actions, a.demands = false)
    (hm : m.workspace.project.Dormant) :
    m'.workspace.project.Dormant ∧ m.workspace.project.Defers m'.workspace.project := by
  induction h with
  | here => exact ⟨hm, .refl _⟩
  | @round actions m' _ ih =>
    obtain ⟨hdormant, hdefers⟩ := ih fun a ha => hdemands a (List.mem_append_left _ ha)
    have hround := next_postpones (fun a ha => hdemands a (List.mem_append_right _ ha)) hdormant
    exact ⟨hround.dormant, hdefers.trans hround.defers⟩
  | begin _ _ _ ih => exact ih hdemands

/-- The plugin whose body is started in the next round, with its body. -/
def begun (m : Machine) : List (PluginId × List Step) :=
  match m.work with
  | .step _ (.apply id _ body) :: _ => if m.plugins.isApplied id then [] else [(id, body)]
  | _ => []

theorem begun_of_first {id : PluginId} {reported : Bool} {body : List Step}
    (hfirst : First m.work (.apply id reported body)) (hnew : id ∉ m.plugins.applied) : m.begun = [(id, body)] := by
  obtain ⟨outer, rest, hwork⟩ := hfirst
  have hunapplied : m.plugins.isApplied id = false := Bool.eq_false_iff.mpr fun h => hnew (Plugins.isApplied_iff.mp h)
  rw [begun, hwork]
  simp [hunapplied]

/-- A plugin counts as applied once its body is started. -/
theorem applied_of_begun {id : PluginId} {body : List Step} (h : (id, body) ∈ m.begun) :
    id ∈ m.next.plugins.applied := by
  have ht := m.next_turn
  unfold begun at h
  split at h
  · rename_i outer other inner body' rest hwork
    rw [hwork] at ht
    split at h
    · cases h
    · cases List.mem_singleton.mp h
      exact ht.applies
  · cases h

end Machine

/-! ## Scripts that leave processing to itself -/

/-- A step that asks for nothing, and leaves to ahead-of-time processing and the plugin that knows the main class what is
    their own: their identities, and what their tasks are to be filled in with. -/
inductive Step.Lazy : Step → Prop
  | act {a : Action} : a.demands = false → ¬ a.Submits ProcessingKind.application.taskName .processAot →
    ¬ a.Submits ConfigM.mainClassTask .resolveMainClassName → Lazy (.act a)
  | apply {id : PluginId} {reported : Bool} {body : List Step} : (∀ s ∈ body, Lazy s) →
    (id = Plugin.aotId → body = Plugin.aot.body) →
    (id = Plugin.bootId → ∃ mainClass, body = (Plugin.boot mainClass).body) → Lazy (.apply id reported body)
  | withPlugin {id : PluginId} {reported : Bool} {body : List Step} : (∀ s ∈ body, Lazy s) →
    Lazy (.withPlugin id reported body)
  | attempt {reported : Bool} {body : List Step} : (∀ s ∈ body, Lazy s) → Lazy (.attempt reported body)

/-- Laziness does not depend on what is applied. -/
theorem Step.lazy_hereditary : Step.Hereditary fun _ => Step.Lazy where
  mono _ h := h
  apply h := by
    cases h with
    | apply hbody _ _ => exact hbody
  withPlugin h := by
    cases h with
    | withPlugin hbody => exact hbody
  attempt h := by
    cases h with
    | attempt hbody => exact hbody

namespace Plugin

/-- The main class that the plugin with this body is given. -/
def givenMainClass : List Step → Option String
  | [.act (.processing (.mainClassTask mainClass))] => mainClass
  | _ => none

theorem java_lazy : java.step.Lazy := by
  refine .apply (fun s hs => ?_) (fun h => absurd h (by decide)) (fun h => absurd h (by decide))
  cases List.mem_singleton.mp hs
  exact .act rfl not_false not_false

theorem boot_lazy (mainClass : Option String) : (boot mainClass).step.Lazy := by
  refine .apply (fun s hs => ?_) (fun h => absurd (show bootId = aotId from h) (by decide)) fun _ => ⟨mainClass, rfl⟩
  cases List.mem_singleton.mp hs
  exact .act rfl not_false not_false

theorem aot_lazy : aot.step.Lazy := by
  have hact : ∀ a : ProcessingAction, (Step.act (.processing a)).Lazy := fun _ => .act rfl not_false not_false
  have hwire : ∀ s ∈ wireProcessing, s.Lazy := by
    simp only [wireProcessing, registerProcessing, List.cons_append, List.nil_append, List.forall_mem_cons]
    exact ⟨hact _, hact _, hact _, hact _, by simp⟩
  have hderive : ∀ s ∈ deriveSourceSets, s.Lazy := by
    simp only [deriveSourceSets, List.forall_mem_cons]
    exact ⟨.act rfl not_false not_false, .act rfl not_false not_false, .withPlugin hwire, by simp⟩
  refine .apply (fun s hs => ?_) (fun _ => rfl) (fun h => absurd h (by decide))
  cases List.mem_singleton.mp hs
  exact .withPlugin hderive

end Plugin

/-- What holds while a lazy script runs and nothing fails, `bodies` being the plugins applied so far. -/
structure Asleep (bodies : List (PluginId × List Step)) (ps : Plugins) (ws : List Work) (p : Project) : Prop where
  recorded : ∃ log, Recorded log ps ws ∧ InOrder log ps ws
  lazy : Throughout (fun _ => Step.Lazy) ps ws
  dormant : p.Dormant
  unbegun : Plugin.bootId ∉ ps.applied → bodies.lookup Plugin.bootId = none
  /-- The task that knows the main class is the whole body of its plugin. -/
  mainClass : Plugin.bootId ∈ ps.applied → ∃ mainClass, bodies.lookup Plugin.bootId = some (Plugin.boot mainClass).body ∧
    (First ws (.act (.processing (.mainClassTask mainClass))) ∨ p.AwaitsMainClass mainClass)
  /-- The processing task is wired once the Java conventions are there and the main class is known. -/
  processing : Plugin.aotId ∈ ps.applied → Owed ws (.withPlugin Plugin.javaId false Plugin.deriveSourceSets)
    (Expected ps ws Plugin.javaId (.withPlugin Plugin.bootId false Plugin.wireProcessing)
      (Expected ps ws Plugin.bootId (.act (.wire .application SourceSetName.main)) p.AwaitsProcessing))

namespace Asleep

variable {m : Machine} {bodies : List (PluginId × List Step)}

/-- The action that is performed next is a lazy one. -/
theorem action_lazy (h : Asleep bodies m.plugins m.work m.workspace.project) {a : Action} (ha : a ∈ m.action?.toList) :
    (Step.act a).Lazy := by
  unfold action? at ha
  split at ha
  · rename_i reported b rest hwork
    cases List.mem_singleton.mp ha
    exact h.lazy.first hwork
  · cases ha

section

variable (h : Asleep bodies m.plugins m.work m.workspace.project)

include h

theorem next_postpones : Postpones (fun task kind => ∃ a ∈ m.action?.toList, a.Submits task kind) m.workspace.project
    m.next.workspace.project := by
  refine Machine.next_postpones (fun a ha => ?_) h.dormant
  cases h.action_lazy ha with
  | act hdemands _ _ => exact hdemands

/-- A task is left as it is if no lazy action submits anything to it. -/
theorem next_find? {task : String} {t : Task} (hsubmits : ∀ a, (Step.act a).Lazy → ¬ a.Submits task t.body.kind)
    (ht : m.workspace.project.tasks.find? task = some t) : m.next.workspace.project.tasks.find? task = some t := by
  refine h.next_postpones.others task t ?_ ht
  intro ⟨a, ha, hs⟩
  exact hsubmits a (h.action_lazy ha) hs

theorem next_awaitsProcessing (hp : m.workspace.project.AwaitsProcessing) : m.next.workspace.project.AwaitsProcessing := by
  refine hp.stays (fun t hkind => h.next_find? fun a ha => ?_) h.next_postpones.defers.providers
  rw [hkind]
  cases ha with
  | act _ haot _ => exact haot

theorem next_awaitsMainClass {mainClass : Option String} (hp : m.workspace.project.AwaitsMainClass mainClass) :
    m.next.workspace.project.AwaitsMainClass mainClass := by
  refine hp.stays (fun t hkind => h.next_find? fun a ha => ?_) h.next_postpones.defers.providers
  rw [hkind]
  cases ha with
  | act _ _ hboot => exact hboot

theorem unbegun_next (hboot : Plugin.bootId ∉ m.next.plugins.applied) :
    (bodies ++ m.begun).lookup Plugin.bootId = none := by
  have hbefore := h.unbegun fun hold => hboot (m.next_turn.mem_applied hold)
  have hnow : m.begun.lookup Plugin.bootId = none := by
    refine List.lookup_eq_none_iff.mpr fun ⟨other, body⟩ hother => bne_iff_ne.mpr fun he => hboot ?_
    rw [he]
    exact applied_of_begun hother
  rw [List.lookup_append, hbefore, hnow]
  rfl

variable (hok : failures m.happening = [])

include hok

theorem mainClass_next (hboot : Plugin.bootId ∈ m.next.plugins.applied) :
    ∃ mainClass, (bodies ++ m.begun).lookup Plugin.bootId = some (Plugin.boot mainClass).body ∧
      (First m.next.work (.act (.processing (.mainClassTask mainClass))) ∨
        m.next.workspace.project.AwaitsMainClass mainClass) := by
  by_cases hold : Plugin.bootId ∈ m.plugins.applied
  · obtain ⟨mainClass, hlookup, hfirst | hawaits⟩ := h.mainClass hold
    · obtain ⟨answer, hrun⟩ := next_ok hfirst hok
      obtain ⟨_, hregister⟩ := onProject_answer_ok hrun
      refine ⟨mainClass, ?_, .inr (awaitsMainClass_of_registerMainClassTask hregister)⟩
      rw [List.lookup_append, hlookup, Option.some_or]
    · refine ⟨mainClass, ?_, .inr (h.next_awaitsMainClass hawaits)⟩
      rw [List.lookup_append, hlookup, Option.some_or]
  · obtain ⟨reported, body, hfirst, more, hnext⟩ := Ahead.of_applied m.next_turn hold hboot
    obtain ⟨outer, rest, hwork⟩ := hfirst
    cases h.lazy.first hwork with
    | apply _ _ hbody =>
      obtain ⟨mainClass, rfl⟩ := hbody rfl
      refine ⟨mainClass, ?_, .inl ⟨reported, more, hnext⟩⟩
      rw [List.lookup_append, h.unbegun hold, begun_of_first ⟨outer, rest, hwork⟩ hold, List.lookup_cons_self]
      rfl

theorem processing_next (haot : Plugin.aotId ∈ m.next.plugins.applied) :
    Owed m.next.work (.withPlugin Plugin.javaId false Plugin.deriveSourceSets)
      (Expected m.next.plugins m.next.work Plugin.javaId (.withPlugin Plugin.bootId false Plugin.wireProcessing)
        (Expected m.next.plugins m.next.work Plugin.bootId (.act (.wire .application SourceSetName.main))
          m.next.workspace.project.AwaitsProcessing)) := by
  have ht := m.next_turn
  obtain ⟨log, -, hinOrder⟩ := h.recorded
  have hreleases := hinOrder.applied
  refine .of_applied (fun reported body hfirst => ?_) h.processing ht hok (fun hfirst => ?_)
    (fun hwiring => ?_) haot
  · obtain ⟨outer, rest, hwork⟩ := hfirst
    cases h.lazy.first hwork with
    | apply _ hbody _ => exact hbody rfl ▸ List.mem_cons_self ..
  · exact .of_withPlugin hfirst ht Plugin.Processes.wireProcessing_mem
  · refine hwiring.turn ht hok hreleases (fun _ hfirst => ?_) fun _ hwired => ?_
    · exact .of_withPlugin hfirst ht Plugin.Processes.application.wire_mem
    refine hwired.turn ht hok hreleases (fun _ hfirst => ?_) fun _ => h.next_awaitsProcessing
    obtain ⟨answer, hrun⟩ := next_ok hfirst hok
    obtain ⟨_, _, -, hwire⟩ := wire_eq_ok hrun
    exact awaitsProcessing_of_wireProcessingTask hwire

/-- In every round that does not fail, what does not wait yet is still owed. -/
theorem next : Asleep (bodies ++ m.begun) m.next.plugins m.next.work m.next.workspace.project where
  recorded := by
    obtain ⟨log, hrecorded, hinOrder⟩ := h.recorded
    exact ⟨_, hrecorded.turn m.next_turn, hinOrder.turn hrecorded m.next_turn hok⟩
  lazy := by
    obtain ⟨log, -, hinOrder⟩ := h.recorded
    exact h.lazy.turn Step.lazy_hereditary m.next_turn hinOrder.applied
  dormant := h.next_postpones.dormant
  unbegun := h.unbegun_next
  mainClass := h.mainClass_next hok
  processing := h.processing_next hok

end

end Asleep

/-! ## Whole scripts -/

namespace Session

/-- The plugins that are applied while steps are performed, in this order, with the bodies that are started. -/
def begun (steps : List Step) (s : Session) : List (PluginId × List Step) := told Machine.begun steps s

theorem start_asleep (settings : Settings) : Asleep [] (start (.ofSettings settings)).plugins [] (.ofSettings settings) where
  recorded := ⟨[], start_recorded _, start_inOrder _⟩
  lazy := ⟨by simp, by simp [start]⟩
  dormant := .start settings
  unbegun _ := rfl
  mainClass := by simp [start]
  processing := by simp [start]

/-- A step is begun where the one before it ended. -/
theorem machine_asleep {s : Session} {bodies : List (PluginId × List Step)}
    (h : Asleep bodies s.plugins [] s.workspace.project) {step : Step} (hstep : step.Lazy) :
    Asleep bodies (s.machine step).plugins (s.machine step).work (s.machine step).workspace.project where
  recorded := by
    obtain ⟨log, hrecorded, hinOrder⟩ := h.recorded
    exact ⟨log, machine_recorded hrecorded step, machine_inOrder hinOrder step⟩
  lazy := ⟨List.forall_mem_singleton.mpr hstep, h.lazy.waiting⟩
  dormant := h.dormant
  unbegun := h.unbegun
  mainClass hboot := by
    obtain ⟨mainClass, hlookup, ⟨_, _, hfirst⟩ | hawaits⟩ := h.mainClass hboot
    · cases hfirst
    · exact ⟨mainClass, hlookup, .inr hawaits⟩
  processing haot := by
    refine (h.processing haot).mono (List.nil_subset _) fun hwiring => ?_
    exact hwiring.mono (List.nil_subset _) fun hwired => hwired.mono (List.nil_subset _) id

theorem asleep_accounted : Accounted Step.Lazy Machine.begun Asleep := ⟨Asleep.next, machine_asleep⟩

/-- At every moment of a run in which nothing is asked for, whatever else is done and whatever fails, no task is realized,
    and every configurator there was at any moment before still waits.

    So it is in particular once a script of this kind has come to its end. If nothing failed and the Java conventions,
    ahead-of-time processing and the plugin that knows the main class were applied, in whatever order and with whatever
    in between: realizing the processing task of the application leaves every other task as it is, and asking for its
    application class after that realizes the task that knows the main class, changes nothing else, and gives what the
    plugin was given as the main class when it was applied, or the empty text if it was given none. -/
theorem configures_lazily (settings : Settings) :
    (∀ (m₀ m₁ m₂ : Machine) (first later : List Action), m₀.workspace.project = .ofSettings settings →
      m₀.Leads first m₁ → m₁.Leads later m₂ → (∀ a ∈ first ++ later, a.demands = false) →
      m₂.workspace.project.Dormant ∧ m₁.workspace.project.Defers m₂.workspace.project) ∧
    ∀ steps : List Step, (∀ step ∈ steps, step.Lazy) → failures (history steps (start (.ofSettings settings))) = [] →
      let s := (performAll steps (start (.ofSettings settings))).2
      let p := s.workspace.project
      p.Dormant ∧ (Plugin.javaId ∈ s.plugins.applied → Plugin.aotId ∈ s.plugins.applied →
        Plugin.bootId ∈ s.plugins.applied →
        ∃ t r, ConfigM.realize "processAot" p = .ok (.processAot t) { p with tasks := r } ∧
          (∀ other, other ≠ "processAot" → r.find? other = p.tasks.find? other) ∧
          ∃ mainClass id r', (begun steps (start (.ofSettings settings))).lookup Plugin.bootId =
              some (Plugin.boot mainClass).body ∧
            t.applicationClass = some id ∧
            ConfigM.evaluate id { p with tasks := r } =
              .ok (mainClass.getD "") (keep { p with tasks := r' } id (mainClass.getD "")) ∧
            r'.isRealized "resolveMainClassName" = .ok true ∧
            ∀ other, other ≠ "resolveMainClassName" → r'.find? other = r.find? other) := by
  refine ⟨fun m₀ m₁ m₂ first later hstart hfirst hlater hdemands => ?_, fun steps hsteps hok => ?_⟩
  · have hm₀ : m₀.workspace.project.Dormant := hstart ▸ .start settings
    obtain ⟨hm₁, -⟩ := hfirst.defers (fun a ha => hdemands a (List.mem_append_left _ ha)) hm₀
    exact hlater.defers (fun a ha => hdemands a (List.mem_append_right _ ha)) hm₁
  intro s p
  have hasleep : Asleep (begun steps (start (.ofSettings settings))) s.plugins [] p :=
    asleep_accounted.performAll steps (start_asleep settings) hsteps hok
  refine ⟨hasleep.dormant, fun hjava haot hboot => ?_⟩
  obtain ⟨log, -, hinOrder⟩ := hasleep.recorded
  have hwiring := ((hasleep.processing haot).resolve_left Ahead.not_nil).met hinOrder hjava
  have hprocessing : p.AwaitsProcessing := hwiring.met hinOrder hboot
  obtain ⟨mainClass, hlookup, ⟨_, _, hfirst⟩ | hmain⟩ := hasleep.mainClass hboot
  · cases hfirst
  obtain ⟨t, id, r, hrealize, hclass, hreads, hothers⟩ := hprocessing.realize
  -- realizing the processing task has left the one that knows the main class waiting
  have hstays : AwaitsMainClass { p with tasks := r } mainClass :=
    hmain.stays (fun u _ hu => (hothers _ (by decide)).trans hu) List.prefix_rfl
  have hreads' : ReadsMainClass { p with tasks := r } id := hreads
  obtain ⟨r', hevaluate, hrealized, halone⟩ := hstays.evaluate hreads'
  exact ⟨t, r, hrealize, hothers, mainClass, id, r', hlookup, hclass, hevaluate, hrealized, halone⟩

/-- Ahead-of-time processing is applied in a handler, and the main class is given inside another plugin, before the Java
    conventions are applied. A task of one's own is registered, and configured twice. Another main class comes too late. -/
theorem configures_lazily_of_plugins_nested :
    let report : CustomType := ⟨"Report", true⟩
    let register : Action := .task (.register "report" (.custom report [.log "first"]))
    let configure : Action := .task (.configure "report" (.custom report [.log "second"]))
    let steps : List Step := [.withPlugin Plugin.javaId false [Plugin.aot.step], .act register,
      .apply "suite" false [(Plugin.boot (some "com.example.App")).step, .act configure], Plugin.java.step,
      (Plugin.boot none).step, .act configure]
    let p := (performAll steps (start (.ofSettings {}))).2.workspace.project
    (∃ m₀ m₁ m₂ : Machine, m₀.Leads [register] m₁ ∧ m₁.Leads [configure, configure] m₂ ∧
      m₂.workspace.project.Dormant ∧ m₁.workspace.project.Defers m₂.workspace.project) ∧
    p.Dormant ∧ (p.tasks.find? "report").map (·.pending.length) = some 3 ∧
    ∃ t id r r', ConfigM.realize "processAot" p = .ok (.processAot t) { p with tasks := r } ∧
      r.find? "resolveMainClassName" = p.tasks.find? "resolveMainClassName" ∧ t.applicationClass = some id ∧
      ConfigM.evaluate id { p with tasks := r } =
        .ok "com.example.App" (keep { p with tasks := r' } id "com.example.App") ∧
      r'.isRealized "resolveMainClassName" = .ok true ∧ r'.find? "report" = p.tasks.find? "report" := by
  intro report register configure steps p
  have hregister : (Step.act register).Lazy := .act rfl not_false not_false
  have hconfigure : (Step.act configure).Lazy :=
    .act rfl (fun h => absurd h.1 (by decide)) fun h => absurd h.1 (by decide)
  have hsuite : (Step.apply "suite" false [(Plugin.boot (some "com.example.App")).step, .act configure]).Lazy :=
    .apply (by simpa using ⟨Plugin.boot_lazy _, hconfigure⟩) (fun h => absurd h (by decide)) fun h => absurd h (by decide)
  have hsteps : ∀ step ∈ steps, step.Lazy := by
    simp only [steps, List.forall_mem_cons]
    exact ⟨.withPlugin (by simpa using Plugin.aot_lazy), hregister, hsuite, Plugin.java_lazy, Plugin.boot_lazy none,
      hconfigure, by simp⟩
  have hok : failures (history steps (start (.ofSettings {}))) = [] := List.isEmpty_iff.mp (by decide +kernel)
  have hids : ∀ id ∈ [Plugin.javaId, Plugin.aotId, Plugin.bootId],
      id ∈ (performAll steps (start (.ofSettings {}))).2.plugins.applied := by decide +kernel
  have hpending : (p.tasks.find? "report").map (·.pending.length) = some 3 := by decide +kernel
  have hgiven : ((begun steps (start (.ofSettings {}))).lookup Plugin.bootId).map Plugin.givenMainClass =
      some (some "com.example.App") := by decide +kernel
  let m₀ : Machine := { work := [], workspace := { project := .ofSettings {} }, plugins := {} }
  obtain ⟨m₁, hfirst, hwork, -⟩ := performAll_act_leads [register] (m := m₀) rfl
  obtain ⟨m₂, hlater, -, -⟩ := performAll_act_leads [configure, configure] hwork
  obtain ⟨hruns, hscripts⟩ := configures_lazily {}
  obtain ⟨hdormant, hdefers⟩ := hruns m₀ m₁ m₂ _ _ rfl hfirst hlater (by decide)
  simp only [List.forall_mem_cons] at hids
  obtain ⟨hjava, haot, hboot, -⟩ := hids
  obtain ⟨hp, hplugins⟩ := hscripts steps hsteps hok
  obtain ⟨t, r, hrealize, hothers, mainClass, id, r', hlookup, hclass, hevaluate, hrealized, halone⟩ :=
    hplugins hjava haot hboot
  obtain rfl : mainClass = some "com.example.App" := by
    rw [hlookup] at hgiven
    exact Option.some.inj hgiven
  exact ⟨⟨m₀, m₁, m₂, hfirst, hlater, hdormant, hdefers⟩, hp, hpending, t, id, r, r', hrealize, hothers _ (by decide),
    hclass, hevaluate, hrealized, (halone _ (by decide)).trans (hothers _ (by decide))⟩

end Session

end BuildGraph

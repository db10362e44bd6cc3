/-
  BuildGraph.Proofs.Script.Processing: ahead-of-time processing in scripts.

  Three plugins take part, in any order: the Java conventions, the one that knows the main class, and
  ahead-of-time processing, which waits for both. So the links of processing are made inside a plugin, inside
  a handler, or inside a handler that another one registered, with anything in between. Once the third of the
  plugins is applied and nothing is under way, all of them are there.

  - `Underway.next`: in every round that does not fail, what is not done yet is still owed.
  - `Session.classpaths_supplied`: in the end, the classpaths resolve to all that processing is to put on
    them.
-/

import BuildGraph.Proofs.Project.Supply
import BuildGraph.Proofs.Script.Obligation

namespace BuildGraph

open History Machine Operation Project ScriptM Work

/-! ## Scripts that keep to the conventions -/

/-- The Java conventions and ahead-of-time processing have their own bodies throughout, and no classpath is replaced. -/
inductive Step.Regular : Step → Prop
  | act {a : Action} : a.replacesClasspath = false → Regular (.act a)
  | apply {id : PluginId} {reported : Bool} {body : List Step} : (∀ s ∈ body, Regular s) →
    (id = Plugin.javaId → body = Plugin.java.body) → (id = Plugin.aotId → body = Plugin.aot.body) →
    Regular (.apply id reported body)
  | withPlugin {id : PluginId} {reported : Bool} {body : List Step} : (∀ s ∈ body, Regular s) →
    Regular (.withPlugin id reported body)
  | attempt {reported : Bool} {body : List Step} : (∀ s ∈ body, Regular s) → Regular (.attempt reported body)

namespace Plugin

theorem java_regular : java.step.Regular := by
  refine .apply (fun s hs => ?_) (fun _ => rfl) (fun h => absurd h (by decide))
  cases List.mem_singleton.mp hs
  exact .act rfl

theorem boot_regular (mainClass : Option String) : (boot mainClass).step.Regular := by
  refine .apply (fun s hs => ?_) (fun h => absurd (show bootId = javaId from h) (by decide))
    (fun h => absurd (show bootId = aotId from h) (by decide))
  cases List.mem_singleton.mp hs
  exact .act rfl

theorem aot_regular : aot.step.Regular := by
  have hwire : ∀ s ∈ wireProcessing, s.Regular := by
    simp only [wireProcessing, registerProcessing, List.cons_append, List.nil_append, List.forall_mem_cons]
    exact ⟨.act rfl, .act rfl, .act rfl, .act rfl, by simp⟩
  have hderive : ∀ s ∈ deriveSourceSets, s.Regular := by
    simp only [deriveSourceSets, List.forall_mem_cons]
    exact ⟨.act rfl, .act rfl, .withPlugin hwire, by simp⟩
  refine .apply (fun s hs => ?_) (fun h => absurd h (by decide)) (fun _ => rfl)
  cases List.mem_singleton.mp hs
  exact .withPlugin hderive

end Plugin

/-- Regularity does not depend on what is applied. -/
theorem Step.regular_hereditary : Step.Hereditary fun _ => Step.Regular where
  mono _ h := h
  apply h := by
    cases h with
    | apply hbody _ _ => exact hbody
  withPlugin h := by
    cases h with
    | withPlugin hbody => exact hbody
  attempt h := by
    cases h with
    | attempt hbody => exact hbody

/-- All that is to be done, and all that waits, is regular. -/
abbrev Regular (ps : Plugins) (ws : List Work) : Prop := Throughout (fun _ => Step.Regular) ps ws

/-! ## Rounds that do not fail -/

namespace Machine

variable {m : Machine}

/-- In a round that does not fail, an action succeeds. -/
theorem next_ok {a : Action} (hfirst : First m.work (.act a)) (hok : failures m.happening = []) :
    ∃ answer, a.run m.plugins m.workspace = .ok answer m.next.workspace := by
  obtain ⟨reported, rest, hwork⟩ := hfirst
  unfold happening at hok
  unfold next
  rw [hwork] at hok ⊢
  cases hrun : a.run m.plugins m.workspace with
  | ok answer w =>
    refine ⟨answer, ?_⟩
    simp only [perform, act, hrun, report_workspace]
  | error e w =>
    simp only [hrun] at hok
    cases hok

/-- A round lets the project grow, unless it replaces a classpath. -/
theorem next_grows (h : Regular m.plugins m.work) : m.workspace.project.Grows m.next.workspace.project := by
  refine next_keeps grows_acting.toFrame fun reported a rest hwork => ?_
  cases h.first hwork with
  | act ha => exact a.run_keeps grows_acting m.plugins ha m.workspace

end Machine

/-! ## What the actions of the plugins achieve -/

section

variable {ps : Plugins} {w v : Workspace} {kind : ProcessingKind} {input : String} {answer : Answer}

/-- Derives the source set of `kind` from `input`. -/
def Action.derive (kind : ProcessingKind) (input : String) : Action := .sourceSet (.derive kind.derived input)

/-- Creates the classpath of the processing task of `kind`. -/
def Action.createClasspath (kind : ProcessingKind) (input : String) : Action :=
  .processing (.createClasspath kind.taskName input)

/-- Wires the processing task of `kind`. -/
def Action.wire (kind : ProcessingKind) (input : String) : Action :=
  .processing (.wire kind kind.derived input kind.classpath none)

theorem wire_eq_ok (h : (Action.wire kind input).run ps w = .ok answer v) :
    ∃ outputs task, outputs.classesDir = generatedClasses kind.derived ∧
      ConfigM.wireProcessingTask kind kind.derived input kind.classpath outputs w.project = .ok task v.project := by
  obtain ⟨outputs, u, houtputs, hwire⟩ := bind_ok h
  obtain ⟨houtputs, rfl⟩ := require_eq_ok houtputs
  obtain ⟨task, hwire⟩ := onProject_answer_ok hwire
  exact ⟨outputs, task, classesDir_of_outputsFor houtputs, hwire⟩

theorem javaConventions_of_run (hs : w.project.Sound)
    (h : (Action.processing .javaConventions).run ps w = .ok answer v) : v.project.JavaConventions := by
  obtain ⟨_, h⟩ := onProject_answer_ok h
  exact ConfigM.javaConventions_of_apply hs h

theorem derived_of_run (hs : w.project.Sound) (h : (Action.derive kind input).run ps w = .ok answer v) :
    v.project.Derived kind.derived input := by
  obtain ⟨_, h⟩ := onProject_answer_ok h
  exact ConfigM.derived_of_deriveSourceSet hs h

theorem classpath_of_run (hs : w.project.Sound) (hinput : w.project.Outfitted input)
    (h : (Action.createClasspath kind input).run ps w = .ok answer v) : v.project.Classpath kind.classpath input := by
  obtain ⟨_, h⟩ := onProject_answer_ok h
  exact ConfigM.classpath_of_createProcessingClasspath hs hinput h

theorem wired_of_run (hs : w.project.Sound) (h : (Action.wire kind input).run ps w = .ok answer v) :
    v.project.Wired kind kind.derived input kind.classpath := by
  obtain ⟨outputs, task, houtputs, hwire⟩ := wire_eq_ok h
  exact ConfigM.wired_of_wireProcessingTask hs houtputs hwire

end

/-! ## What is still owed -/

/-- What ahead-of-time processing works on. -/
inductive Plugin.Processes : ProcessingKind → String → Prop
  | application : Processes .application SourceSetName.main
  | tests : Processes (.tests SourceSetName.main) SourceSetName.test

/-- What becomes of the processing task of `kind` is there, or due once the main class is known. -/
structure Wiring (ps : Plugins) (ws : List Work) (p : Project) (kind : ProcessingKind) (input : String) : Prop where
  classpath : Expected ps ws Plugin.bootId (.act (.createClasspath kind input)) (p.Classpath kind.classpath input)
  wired : Expected ps ws Plugin.bootId (.act (.wire kind input)) (p.Wired kind kind.derived input kind.classpath)

/-- The derived source set is there, or due once the Java conventions are; so is the wiring. -/
structure Derivation (ps : Plugins) (ws : List Work) (p : Project) (kind : ProcessingKind) (input : String) : Prop where
  derived : Expected ps ws Plugin.javaId (.act (.derive kind input)) (p.Derived kind.derived input)
  wiring : Expected ps ws Plugin.javaId (.withPlugin Plugin.bootId false Plugin.wireProcessing) (Wiring ps ws p kind input)

/-- What holds while a regular script runs and nothing fails. -/
structure Underway (log : List Happening) (ps : Plugins) (ws : List Work) (p : Project) : Prop where
  recorded : Recorded log ps ws
  inOrder : InOrder log ps ws
  regular : BuildGraph.Regular ps ws
  sound : p.Sound
  /-- The conventions are the whole body of their plugin, so they are applied right after it counts as applied. -/
  conventions : Plugin.javaId ∈ ps.applied → First ws (.act (.processing .javaConventions)) ∨ p.JavaConventions
  processing : ∀ kind input, Plugin.Processes kind input → Plugin.aotId ∈ ps.applied →
    Owed ws (.withPlugin Plugin.javaId false Plugin.deriveSourceSets) (Derivation ps ws p kind input)

namespace Plugin.Processes

variable {kind : ProcessingKind} {input : String}

theorem derive_mem (h : Processes kind input) : .act (.derive kind input) ∈ Plugin.deriveSourceSets := by
  cases h
  · exact List.mem_cons_self ..
  · exact List.mem_cons_of_mem _ (List.mem_cons_self ..)

theorem wireProcessing_mem : .withPlugin Plugin.bootId false Plugin.wireProcessing ∈ Plugin.deriveSourceSets :=
  List.mem_append_right [_, _] (List.mem_cons_self ..)

theorem createClasspath_mem (h : Processes kind input) : .act (.createClasspath kind input) ∈ Plugin.wireProcessing := by
  cases h
  · exact List.mem_append_left _ (List.mem_cons_self ..)
  · exact List.mem_append_right _ (List.mem_cons_self ..)

theorem wire_mem (h : Processes kind input) : .act (.wire kind input) ∈ Plugin.wireProcessing := by
  cases h
  · exact List.mem_append_left _ (List.mem_cons_of_mem _ (List.mem_cons_self ..))
  · exact List.mem_append_right _ (List.mem_cons_of_mem _ (List.mem_cons_self ..))

theorem outfitted {p : Project} (h : Processes kind input) (hp : p.JavaConventions) : p.Outfitted input := by
  cases h
  · exact hp.main
  · exact hp.test

/-- By convention, a source set runs with the outputs that are processed for it. -/
theorem outputs {p : Project} (h : Processes kind input) (hp : p.JavaConventions) :
    ∀ name ∈ kind.inputs input, p.Lists .runtime input (.output name) := by
  cases h
  · exact List.forall_mem_singleton.mpr hp.main.output
  · exact List.forall_mem_cons.mpr ⟨hp.output, List.forall_mem_singleton.mpr hp.test.output⟩

end Plugin.Processes

namespace Underway

variable {m : Machine} {log : List Happening} {kind : ProcessingKind} {input : String}

/-- The first piece of work is one step only. -/
theorem first_unique {ws : List Work} {s t : Step} (hs : First ws s) (ht : First ws t) : s = t := by
  obtain ⟨_, _, rfl⟩ := hs
  obtain ⟨_, _, he⟩ := ht
  cases he
  rfl

section

variable (h : Underway log m.plugins m.work m.workspace.project) (hok : failures m.happening = [])

include h hok

/-- In the round that creates a processing classpath, the conventions have been applied before. -/
theorem wiring_next (hk : Plugin.Processes kind input) (hjava : Plugin.javaId ∈ m.plugins.applied)
    (hw : Wiring m.plugins m.work m.workspace.project kind input) :
    Wiring m.next.plugins m.next.work m.next.workspace.project kind input := by
  have ht := m.next_turn
  have hgrows := next_grows h.regular
  refine ⟨?_, ?_⟩
  · refine hw.classpath.turn ht hok h.inOrder.applied (fun _ hfirst => ?_) fun _ hc => hc.grows hgrows
    obtain ⟨answer, hrun⟩ := next_ok hfirst hok
    rcases h.conventions hjava with hother | hjavaConventions
    · cases first_unique hfirst hother
    · exact classpath_of_run h.sound (hk.outfitted hjavaConventions) hrun
  · refine hw.wired.turn ht hok h.inOrder.applied (fun _ hfirst => ?_) fun _ hc => hc.grows hgrows
    obtain ⟨answer, hrun⟩ := next_ok hfirst hok
    exact wired_of_run h.sound hrun

theorem derivation_next (hk : Plugin.Processes kind input)
    (hd : Derivation m.plugins m.work m.workspace.project kind input) :
    Derivation m.next.plugins m.next.work m.next.workspace.project kind input := by
  have ht := m.next_turn
  refine ⟨?_, ?_⟩
  · refine hd.derived.turn ht hok h.inOrder.applied (fun _ hfirst => ?_) fun _ hc => hc.grows (next_grows h.regular)
    obtain ⟨answer, hrun⟩ := next_ok hfirst hok
    exact derived_of_run h.sound hrun
  · refine hd.wiring.turn ht hok h.inOrder.applied (fun _ hfirst => ?_) fun hjava hw => h.wiring_next hok hk hjava hw
    exact ⟨.of_withPlugin hfirst ht hk.createClasspath_mem, .of_withPlugin hfirst ht hk.wire_mem⟩

theorem conventions_next (hjava : Plugin.javaId ∈ m.next.plugins.applied) :
    First m.next.work (.act (.processing .javaConventions)) ∨ m.next.workspace.project.JavaConventions := by
  by_cases hold : Plugin.javaId ∈ m.plugins.applied
  · rcases h.conventions hold with hfirst | hc
    · obtain ⟨answer, hrun⟩ := next_ok hfirst hok
      exact .inr (javaConventions_of_run h.sound hrun)
    · exact .inr (hc.grows (next_grows h.regular))
  · obtain ⟨reported, body, ⟨outer, rest, hfirst⟩, more, hnext⟩ := Ahead.of_applied m.next_turn hold hjava
    cases h.regular.first hfirst with
    | apply _ hbody _ =>
      obtain rfl := hbody rfl
      exact .inl ⟨reported, more, hnext⟩

theorem processing_next (hk : Plugin.Processes kind input) (haot : Plugin.aotId ∈ m.next.plugins.applied) :
    Owed m.next.work (.withPlugin Plugin.javaId false Plugin.deriveSourceSets)
      (Derivation m.next.plugins m.next.work m.next.workspace.project kind input) := by
  have ht := m.next_turn
  refine .of_applied (fun reported body hfirst => ?_) (h.processing kind input hk) ht hok (fun hfirst => ?_)
    (h.derivation_next hok hk) haot
  · obtain ⟨outer, rest, hwork⟩ := hfirst
    cases h.regular.first hwork with
    | apply _ _ hbody => exact hbody rfl ▸ List.mem_cons_self ..
  · exact ⟨.of_withPlugin hfirst ht hk.derive_mem, .of_withPlugin hfirst ht Plugin.Processes.wireProcessing_mem⟩

/-- In every round that does not fail, what is not done yet is still owed. -/
theorem next : Underway (log ++ m.happening) m.next.plugins m.next.work m.next.workspace.project where
  recorded := h.recorded.turn m.next_turn
  inOrder := h.inOrder.turn h.recorded m.next_turn hok
  regular := h.regular.turn Step.regular_hereditary m.next_turn h.inOrder.applied
  sound := h.sound.evolves m.next_evolves
  conventions := h.conventions_next hok
  processing _ _ hk := h.processing_next hok hk

end

/-- Once all three plugins are applied and all work is done, nothing is owed any more. -/
theorem processed {ps : Plugins} {p : Project} (h : Underway log ps [] p) (hjava : Plugin.javaId ∈ ps.applied)
    (haot : Plugin.aotId ∈ ps.applied) (hboot : Plugin.bootId ∈ ps.applied) (hk : Plugin.Processes kind input) :
    p.Processed kind input := by
  have hconventions : p.JavaConventions := by
    rcases h.conventions hjava with ⟨_, _, hfirst⟩ | hc
    · cases hfirst
    · exact hc
  have hderivation : Derivation ps [] p kind input := (h.processing kind input hk haot).resolve_left Ahead.not_nil
  have hwiring := hderivation.wiring.met h.inOrder hjava
  exact ⟨hk.outputs hconventions, hk.outfitted hconventions, hderivation.derived.met h.inOrder hjava,
    hwiring.classpath.met h.inOrder hboot, hwiring.wired.met h.inOrder hboot⟩

end Underway

/-! ## Whole scripts -/

namespace Session

theorem start_underway (settings : Settings) : Underway [] (start (.ofSettings settings)).plugins [] (.ofSettings settings) where
  recorded := start_recorded _
  inOrder := start_inOrder _
  regular := ⟨by simp, by simp [start]⟩
  sound := (reachable_ofSettings settings).sound
  conventions := by simp [start]
  processing := by simp [start]

/-- A step is begun where the one before it ended. -/
theorem machine_underway {s : Session} {log : List Happening} (h : Underway log s.plugins [] s.workspace.project)
    {step : Step} (hstep : step.Regular) :
    Underway log (s.machine step).plugins (s.machine step).work (s.machine step).workspace.project where
  recorded := machine_recorded h.recorded step
  inOrder := machine_inOrder h.inOrder step
  regular := ⟨List.forall_mem_singleton.mpr hstep, h.regular.waiting⟩
  sound := h.sound
  conventions hjava := by
    rcases h.conventions hjava with ⟨_, _, hfirst⟩ | hc
    · cases hfirst
    · exact .inr hc
  processing kind input hk haot := by
    refine (h.processing kind input hk haot).mono (List.nil_subset _) fun hd => ⟨?_, ?_⟩
    · exact hd.derived.mono (List.nil_subset _) id
    · refine hd.wiring.mono (List.nil_subset _) fun hw => ⟨?_, ?_⟩
      · exact hw.classpath.mono (List.nil_subset _) id
      · exact hw.wired.mono (List.nil_subset _) id

theorem underway_carried : Carried Step.Regular Underway := ⟨Underway.next, machine_underway⟩

/-- Once the Java conventions, ahead-of-time processing and the plugin that knows the main class are applied, in
    whatever order and with whatever done before, between and after, as long as no classpath was replaced and nothing
    failed: the derived source sets are compiled with what is processed, with the generated classes and with all that
    is declared for running the application or its tests, and these run with what is generated. -/
theorem classpaths_supplied (settings : Settings) (steps : List Step) (hsteps : ∀ step ∈ steps, step.Regular)
    (hok : failures (history steps (start (.ofSettings settings))) = []) :
    let s := (performAll steps (start (.ofSettings settings))).2
    Plugin.javaId ∈ s.plugins.applied → Plugin.aotId ∈ s.plugins.applied → Plugin.bootId ∈ s.plugins.applied →
      s.workspace.project.Supplies .application SourceSetName.main ∧
        s.workspace.project.Supplies (.tests SourceSetName.main) SourceSetName.test := by
  intro s hjava haot hboot
  have hreachable : s.workspace.project.Reachable := performAll_reachable settings steps
  have h := underway_carried.performAll steps (start_underway settings) hsteps hok
  exact ⟨(h.processed hjava haot hboot .application).supplies hreachable,
    (h.processed hjava haot hboot .tests).supplies hreachable⟩

/-- With the plugins applied the other way round, a directory that is declared last is there all the same. -/
theorem classpaths_supplied_of_late_dependency :
    let steps := [(Plugin.boot none).step, Plugin.aot.step, Plugin.java.step,
      .act (.configuration (.addDependency "runtimeOnly" (.files (.dir (.project ⟨"libs"⟩)))))]
    let p := (performAll steps (start (.ofSettings { name := "demo" }))).2.workspace.project
    p.configurations.hierarchy "processAotClasspath" = .ok ["processAotClasspath", "runtimeOnly", "implementation"] ∧
      ∃ s paths, p.sourceSets.get "aot" = .ok s ∧ p.resolveFiles s.compileClasspath = .ok paths ∧
        paths.contains (p.layout.resolve (.project ⟨"libs"⟩)) = true := by
  intro steps p
  have hsteps : ∀ step ∈ steps, step.Regular := by
    simpa [steps] using ⟨Plugin.boot_regular none, Plugin.aot_regular, Plugin.java_regular, .act rfl⟩
  have hok : failures (history steps (start (.ofSettings { name := "demo" }))) = [] := rfl
  have hids : ∀ id ∈ [Plugin.javaId, Plugin.aotId, Plugin.bootId],
      id ∈ (performAll steps (start (.ofSettings { name := "demo" }))).2.plugins.applied := by decide +kernel
  have hhierarchy : p.configurations.hierarchy "processAotClasspath" =
      .ok ["processAotClasspath", "runtimeOnly", "implementation"] := rfl
  have hresolves : ((p.sourceSets.get "aot").bind fun s => p.resolveFiles s.compileClasspath).isOk = true := by
    decide +kernel
  simp only [List.forall_mem_cons] at hids
  obtain ⟨hjava, haot, hboot, -⟩ := hids
  obtain ⟨s, hs, hcompiled⟩ := (classpaths_supplied { name := "demo" } steps hsteps hok hjava haot hboot).1.compiled
  have hs' : p.sourceSets.get "aot" = .ok s := hs
  rw [hs'] at hresolves
  cases hpaths : p.resolveFiles s.compileClasspath with
  | error e =>
    rw [show Except.bind (.ok s) (fun s => p.resolveFiles s.compileClasspath) = p.resolveFiles s.compileClasspath from rfl,
      hpaths] at hresolves
    cases hresolves
  | ok paths =>
    obtain ⟨-, -, names, hnames, hdeclared⟩ := hcompiled paths hpaths
    cases hhierarchy.symm.trans hnames
    refine ⟨hhierarchy, s, paths, hs', hpaths, ?_⟩
    exact hdeclared "runtimeOnly" (by decide) (.dir (.project ⟨"libs"⟩)) (List.mem_cons_self ..) _ (List.mem_cons_self ..)

end Session

end BuildGraph

/-
  BuildGraph.Proofs.Project.Conventional: what the operations of the conventions make of a project.

  Creating source sets, configuring them and wiring processing tasks keep a project conventional,
  whether they succeed or fail, and however far they come.

  - `Built`: what a source set has whose creation succeeded; it never loses it (`Built.evolves`).
  - `conventional_wireProcessingTask`: a processing task is wired as soon as it is there, if the source
    set it fills was built. Nothing that wiring does after the task is registered can fail then.
-/

import BuildGraph.Proofs.Files.Distinct
import BuildGraph.Proofs.Project.Operations
import BuildGraph.Proofs.Project.Orderly

namespace BuildGraph

open Operation Project SourceSetName

/-! ## Source sets that were built -/

namespace Project

/-- The classes of the source set `name` wait for its compilation and its resources, and it has a place for its
    dependencies. -/
structure Built (p : Project) (name : String) : Prop where
  compile : (compileJava name, classes name) ∈ p.tasks.edges
  resources : (processResources name, classes name) ∈ p.tasks.edges
  implementation : implementation name ∈ p.configurations.names

theorem Built.evolves {p q : Project} {name : String} (h : p.Built name) (hq : Evolves p q) : q.Built name :=
  ⟨hq.mem_tasks_edges h.compile, hq.mem_tasks_edges h.resources, hq.mem_configurations_names h.implementation⟩

end Project

namespace ConfigM

variable {p q : Project} {name : String}

/-- A configuration is there once it was created, also if it had been there or its set-up failed. -/
theorem mem_after_createConfiguration (name : String) (setup : List Configurations.Setup) (p : Project) :
    name ∈ (after (createConfiguration name setup) p).configurations.names := by
  rw [after_createConfiguration, Configurations.create_eq_createBy]
  unfold Configurations.createBy
  cases hd : p.configurations.declare name with
  | error e =>
    show name ∈ p.configurations.names
    unfold Configurations.declare at hd
    split at hd
    · rename_i hc
      exact Configurations.contains_iff.mp hc
    · cases hd
  | ok r =>
    have hn : name ∈ ({ p with configurations := r } : Project).configurations.names := by
      obtain ⟨-, rfl⟩ := Configurations.declare_eq_ok hd
      simp [Configurations.names]
    have hsteps : Evolves { p with configurations := r } _ :=
      .configurations ((Configurations.Course.ofSetup setup).steps name r)
    exact hsteps.mem_configurations_names hn

theorem mem_of_createSourceSetConfigurations {u : Unit} (h : createSourceSetConfigurations name p = .ok u q) :
    implementation name ∈ q.configurations.names := by
  obtain ⟨q₁, q₂, q₃, q₄, h₁, h₂, h₃, h₄, h₅⟩ := createSourceSetConfigurations_ok h
  have hn : implementation name ∈ q₁.configurations.names := by
    rw [← after_of_ok h₁]
    exact mem_after_createConfiguration _ _ _
  have hq₃ : Evolves q₁ q₃ :=
    ((evolves_createConfiguration _ _).of_ok h₂).trans ((evolves_createConfiguration _ _).of_ok h₃)
  have hq : Evolves q₁ q :=
    hq₃.trans (((evolves_createConfiguration _ _).of_ok h₄).trans ((evolves_createConfiguration _ _).of_ok h₅))
  exact hq.mem_configurations_names hn

theorem mem_of_dependsOn {dependent dependency : String} {u : Unit} (h : dependsOn dependent dependency p = .ok u q) :
    (dependency, dependent) ∈ q.tasks.edges := by
  obtain ⟨r, hr, rfl⟩ := onTasks_eq_ok h
  cases hr
  exact Digraph.mem_connect.mpr (.inr rfl)

theorem mem_of_registerSourceSetTasks {unit : UnitId} {u : Unit} (h : registerSourceSetTasks name unit p = .ok u q) :
    (compileJava name, classes name) ∈ q.tasks.edges ∧ (processResources name, classes name) ∈ q.tasks.edges := by
  obtain ⟨q₁, q₂, q₃, q₄, -, -, -, hcompile, hresources⟩ := registerSourceSetTasks_ok h
  refine ⟨?_, mem_of_dependsOn hresources⟩
  have hedge := mem_of_dependsOn hcompile
  obtain ⟨r, hr, rfl⟩ := onTasks_eq_ok hresources
  cases hr
  exact Digraph.mem_connect.mpr (.inl hedge)

/-- A source set whose creation succeeds is built. -/
theorem built_of_createSourceSet {u : Unit} (h : createSourceSet name p = .ok u q) : q.Built name := by
  obtain ⟨q₁, q₂, h₁, -, h₂, -, rfl⟩ := createSourceSet_ok h
  obtain ⟨hcompile, hresources⟩ := mem_of_registerSourceSetTasks h₂
  have hq : Evolves q₁ q₂ :=
    .trans (.single (.sourceSets (.layOut _))) ((evolves_registerSourceSetTasks _ _).of_ok h₂)
  -- registering the source set changes neither tasks nor configurations
  exact ⟨hcompile, hresources, hq.mem_configurations_names (mem_of_createSourceSetConfigurations h₁)⟩

theorem built_of_deriveSourceSet {existing : String} {u : Unit} (h : deriveSourceSet name existing p = .ok u q) :
    q.Built name := by
  obtain ⟨s, q₁, -, -, hs, hc, -⟩ := deriveSourceSet_ok h
  rw [← after_of_ok h]
  exact (built_of_createSourceSet hc).evolves (evolves_arranging.toAdjusting.after_deriveSourceSet hs hc)

/-! ## Operations that keep a project conventional -/

theorem conventional_frame : Frame (Preserves Conventional) := preserves_frame Conventional

/-- The configurations make no difference. -/
theorem conventional_of_configurationsOnly {α : Type} {m : ConfigM α} (h : Keeps ConfigurationsOnly m p) :
    Keeps (Preserves Conventional) m p := h.imp fun _ ht hp => hp.congr ht.tasks_eq ht.sourceSets_eq

theorem conventional_onConfigurations (f : Configurations → Except ConfigError Configurations) :
    Keeps (Preserves Conventional) (onConfigurations f) p :=
  conventional_of_configurationsOnly (configurationsOnly_onConfigurations f)

theorem conventional_createConfiguration (name : String) (setup : List Configurations.Setup) :
    Keeps (Preserves Conventional) (createConfiguration name setup) p :=
  conventional_of_configurationsOnly (configurationsOnly_createConfiguration name setup)

theorem conventional_addProviders (cells : List Provider) : Keeps (Preserves Conventional) (addProviders cells) p :=
  .of_modify fun hp => hp.congr rfl rfl

theorem conventional_onSourceSets {f : SourceSets → Except ConfigError SourceSets}
    (h : ∀ r, f p.sourceSets = .ok r → p.Orderly → Orderly { p with sourceSets := r }) :
    Keeps (Preserves Conventional) (onSourceSets f) p :=
  keeps_onSourceSets conventional_frame fun r hr hp => hp.of_sourceSets (h r hr hp.toOrderly)

/-- A source set may be changed in all but its output. -/
theorem conventional_editSourceSet (name : String) {f : SourceSet → SourceSet} (hf : ∀ s, (f s).output = s.output) :
    Keeps (Preserves Conventional) (onSourceSets (·.update name f)) p :=
  keeps_updateSourceSet conventional_frame name fun u hp => hp.of_sourceSets (hp.toOrderly.edit u hf)

theorem conventional_insert (name : String) :
    Keeps (Preserves Conventional) (onSourceSets (·.insert (.conventional name))) p := by
  refine conventional_onSourceSets ?_
  intro r hr hp
  unfold SourceSets.insert at hr
  split at hr
  · cases hr
  · cases hr
    have hlaid := hp.layOut (s := .conventional name) (List.cons_ne_nil _ _)
    exact hlaid.registerSourceSet name _

theorem conventional_registerTask {body : TaskBody} {cs : List Configurator}
    (hname : ∀ kind : ProcessingKind, kind.taskName ≠ name)
    (hready : Task.Ready p.sourceSets.units.length { name := name, body := body, pending := cs }) :
    Keeps (Preserves Conventional) (registerTask name body cs) p :=
  keeps_onTasks conventional_frame fun _ hr hp => hp.register hname hr hready

theorem conventional_dependsOn {dependent dependency : String} (hk : taskRank dependency < taskRank dependent) :
    Keeps (Preserves Conventional) (dependsOn dependent dependency) p :=
  .of_eq_ok (onTasks_ok rfl) fun hp => hp.dependsOn hk

theorem conventional_registerSourceSetTasks (name : String) {u : UnitId} (hu : u < p.sourceSets.units.length) :
    Keeps (Preserves Conventional) (registerSourceSetTasks name u) p := by
  have hF := conventional_frame
  have hcompile := taskName_ne (taskRank_compileJava name)
  have hresources := taskName_ne (taskRank_processResources name)
  have hclasses := taskName_ne (taskRank_classes name)
  unfold registerSourceSetTasks
  refine .bind hF (conventional_registerTask hcompile (.compile _ u)) ?_
  intro _ q₁ h₁
  have hu₁ : u < q₁.sourceSets.units.length := by
    rw [((tasksOnly_onTasks _).of_ok h₁).sourceSets_eq]
    exact hu
  refine .bind hF (conventional_registerTask hresources (.resources _ hu₁)) fun _ _ _ => ?_
  refine .bind hF (conventional_registerTask hclasses (.classes _)) fun _ _ _ => ?_
  exact .bind hF (conventional_dependsOn (by simp)) fun _ _ _ => conventional_dependsOn (by simp)

theorem conventional_buildSourceSet (name : String) : Keeps (Preserves Conventional) (buildSourceSet name) p := by
  have hF := conventional_frame
  unfold buildSourceSet
  refine .bind hF ?_ fun _ q₁ _ => .get_bind (.bind hF ?_ fun _ q₂ h₂ => ?_)
  · exact conventional_of_configurationsOnly (configurationsOnly_createSourceSetConfigurations name p)
  · refine conventional_onSourceSets ?_
    intro r hr hp
    cases hr
    exact hp.layOut (List.cons_ne_nil _ _)
  · have hu : q₁.sourceSets.nextUnit < q₂.sourceSets.units.length := by
      obtain ⟨r, hr, rfl⟩ := onSourceSets_eq_ok h₂
      cases hr
      show q₁.sourceSets.units.length < (q₁.sourceSets.units ++ [_]).length
      simp
    refine .bind hF (conventional_registerSourceSetTasks name hu) fun _ _ _ => ?_
    refine conventional_onSourceSets ?_
    intro r hr hp
    cases hr
    exact hp.registerSourceSet name _

theorem conventional_createSourceSet (name : String) : Keeps (Preserves Conventional) (createSourceSet name) p := by
  rcases createSourceSet_cases name p with ⟨h, -⟩ | ⟨h, -⟩
  · exact .of_eq_error h id
  · exact .of_eq h (conventional_buildSourceSet name)

theorem conventional_arranging : Arranging (Preserves Conventional) where
  toFrame := conventional_frame
  createConfiguration _ _ _ := conventional_createConfiguration _ _
  extendConfiguration _ _ _ := conventional_onConfigurations _
  addDependency _ _ _ := conventional_onConfigurations _
  editConfiguration _ _ _ := conventional_onConfigurations _
  editSourceSet _ _ _ _ houtput _ := conventional_editSourceSet _ houtput
  createSourceSet _ _ := conventional_createSourceSet _

theorem conventional_registerMainClassTask (mainClass : Option String) :
    Keeps (Preserves Conventional) (registerMainClassTask mainClass) p := by
  unfold registerMainClassTask
  refine .get_bind (.bind conventional_frame (conventional_registerTask ?_ (.change rfl)) fun _ _ _ => ?_)
  · intro kind
    cases kind with
    | application => decide
    | tests main =>
      show "processTestAot" ≠ mainClassTask
      decide
  · exact conventional_addProviders _

/-! ## Wiring -/

theorem isEmpty_ofList {es : List FileElement} (h : es ≠ []) : (FileCollection.ofList es).isEmpty = false := by
  obtain ⟨e, he⟩ := List.exists_mem_of_ne_nil es h
  obtain ⟨f, hf, -⟩ := Distinct.exists_beq_of_mem_ofList he
  show (Distinct.ofList es).isEmpty = false
  exact List.isEmpty_eq_false_iff_exists_mem.mpr ⟨f, hf⟩

theorem missingInput_processingSpec (outputs : ProcessingOutputs) (groupId artifactId : ProviderId)
    {roots : FileCollection} (hroots : roots.isEmpty = false) (classpath : String) :
    (processingSpec outputs groupId artifactId roots classpath).missingInput = none := by
  simp [ProcessingSpec.missingInput, processingSpec, hroots]

theorem registerWithProviders_cases (name : String) (body : TaskBody) (cs : List Configurator) (cells : List Provider)
    (p : Project) :
    (∃ e, (do registerTask name body cs; addProviders cells : ConfigM Unit) p = .error e p) ∨
      ∃ r, p.tasks.register name body cs = .ok r ∧
        (do registerTask name body cs; addProviders cells : ConfigM Unit) p =
          .ok ⟨⟩ { p with tasks := r, providers := p.providers ++ cells } := by
  cases hr : p.tasks.register name body cs with
  | error e => exact .inl ⟨e, bind_of_error (registerTask_error hr)⟩
  | ok r =>
    refine .inr ⟨r, rfl, ?_⟩
    rw [bind_of_ok (registerTask_ok hr)]
    rfl

/-- A processing task is registered ready to be realized, or nothing happens. -/
theorem registerProcessingTask_cases (kind : ProcessingKind) (input classpath : String) {roots : FileCollection}
    (hroots : roots.isEmpty = false) (outputs : ProcessingOutputs) (p : Project) :
    (∃ e, registerProcessingTask kind input classpath roots outputs p = .error e p) ∨
      ∃ body cs r cells, p.tasks.register kind.taskName body cs = .ok r ∧
        Task.Ready p.sourceSets.units.length { name := kind.taskName, body := body, pending := cs } ∧
        registerProcessingTask kind input classpath roots outputs p =
          .ok ⟨⟩ { p with tasks := r, providers := p.providers ++ cells } := by
  have hspec := missingInput_processingSpec outputs p.nextProvider (p.nextProvider + 1) hroots classpath
  unfold registerProcessingTask
  rw [bind_of_ok (get_apply p)]
  cases kind with
  | application =>
    rcases registerWithProviders_cases _ _ _ _ p with ⟨e, he⟩ | ⟨r, hr, hok⟩
    · exact .inl ⟨e, he⟩
    · refine .inr ⟨_, _, r, _, hr, .change ?_, hok⟩
      simp [Change.apply, TaskBody.blank, TaskBody.missingInput, hspec]
  | tests main =>
    rcases registerWithProviders_cases _ _ _ _ p with ⟨e, he⟩ | ⟨r, hr, hok⟩
    · exact .inl ⟨e, he⟩
    · refine .inr ⟨_, _, r, _, hr, .change ?_, hok⟩
      simp [Change.apply, TaskBody.blank, TaskBody.missingInput, hspec]

/-- Once the processing task is registered, nothing can fail any more before it is wired. -/
theorem conventional_registerAndFeed (kind : ProcessingKind) (input classpath : String) {roots : FileCollection}
    (hroots : roots.isEmpty = false) (outputs : ProcessingOutputs) (hb : p.Built kind.derived) :
    Keeps (Preserves Conventional) (do
      registerProcessingTask kind input classpath roots outputs
      addDependency (implementation kind.derived) (.files (.dir outputs.classesDir))
      dependsOn (compileJava kind.derived) kind.taskName
      dependsOn (processResources kind.derived) kind.taskName
      return kind.taskName) p := by
  rcases registerProcessingTask_cases kind input classpath hroots outputs p with
    ⟨e, he⟩ | ⟨body, cs, r, cells, hr, hready, hok⟩
  · exact .of_eq_error (bind_of_error he) id
  · have hadd : p.configurations.addDependency (implementation kind.derived) (.files (.dir outputs.classesDir)) = .ok _ :=
      if_pos (Configurations.contains_iff.mpr hb.implementation)
    refine .of_eq_ok ((bind_of_ok hok).trans (bind_of_ok (onConfigurations_ok hadd))) ?_
    intro hp
    exact (hp.feed hr hready hb.compile).congr rfl rfl

/-- A source set that is found was laid out. -/
theorem mem_of_get_sourceSet {s : SourceSet} (h : p.sourceSets.get name = .ok s) : s ∈ p.sourceSets.units := by
  have hs := SourceSets.get_eq_ok h
  unfold SourceSets.find? at hs
  obtain ⟨u, -, hu⟩ := Option.bind_eq_some_iff.mp hs
  exact List.mem_of_getElem? hu

theorem conventional_wireProcessingTask (kind : ProcessingKind) (input classpath : String)
    (outputs : ProcessingOutputs) (hb : p.Built kind.derived) :
    Keeps (Preserves Conventional) (wireProcessingTask kind kind.derived input classpath outputs) p := by
  intro hp
  have hF := conventional_frame
  suffices h : Keeps (Preserves Conventional) (wireProcessingTask kind kind.derived input classpath outputs) p from h hp
  unfold wireProcessingTask
  refine .bind hF (keeps_requireProcessingParts hF _ _ _ _) ?_
  intro s q hparts
  obtain ⟨rfl, -, -, -, hinput, -⟩ := requireProcessingParts_eq_ok hparts
  have hroots : (FileCollection.ofList (s.output.classesDirs.map FileElement.dir)).isEmpty = false := by
    refine isEmpty_ofList ?_
    intro hnil
    exact hp.outputs s (mem_of_get_sourceSet hinput) (List.map_eq_nil_iff.mp hnil)
  refine .bind hF (conventional_arranging.declareProcessingInput _ _ _ _) ?_
  intro _ q₁ h₁
  refine .bind hF (conventional_editSourceSet _ fun _ => rfl) ?_
  intro _ q₂ h₂
  refine .bind hF (conventional_onConfigurations _) ?_
  intro _ q₃ h₃
  -- the derived source set is still built when the task is registered
  have hq₁ := (evolves_arranging.declareProcessingInput _ _ _ _).of_ok h₁
  have hq₂ := (evolves_editSourceSet _ (by intro s; rfl)).of_ok h₂
  have hq₃ := (evolves_extendConfiguration _ _).of_ok h₃
  exact conventional_registerAndFeed kind input classpath hroots outputs (hb.evolves (hq₁.trans (hq₂.trans hq₃)))

end ConfigM

end BuildGraph

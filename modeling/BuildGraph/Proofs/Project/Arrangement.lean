/-
  BuildGraph.Proofs.Project.Arrangement: what the conventions and the plugins keep, told by what they are
  made of.

  They create source sets, and change these and configurations afterwards. So they keep every relation
  that these changes keep (`Adjusting`) and that creating the source sets does (`Arranging`), however far they
  come.

  - `createSourceSet_ok` / `deriveSourceSet_ok` / `createProcessingClasspath_ok` / `wireProcessingTask_ok`: the
    operations they are made of, if they succeed.
  - `keeps_createSourceSet` / `keeps_createProcessingClasspath` / `keeps_wireProcessingTask`: what these operations keep,
    they keep.
-/

import BuildGraph.Processing.DerivedSourceSet
import BuildGraph.Processing.Wiring
import BuildGraph.Proofs.Configuration.Reach
import BuildGraph.Proofs.Project.Basic
import BuildGraph.Proofs.SourceSet.Clashes
import BuildGraph.Proofs.SourceSet.Registry

namespace BuildGraph

open Operation SourceSetName

/-- The classes directory that processing fills for `derived`. -/
def generatedClasses (derived : String) : Location := .build ⟨"generated/" ++ derived ++ "Classes"⟩

/-- The classpath that a processing task has of its own. -/
def ProcessingKind.classpath (kind : ProcessingKind) : String := kind.taskName ++ "Classpath"

theorem Project.classesDir_of_outputsFor {p : Project} {task derived : String} {outputs : ProcessingOutputs}
    (h : p.outputsFor task derived = .ok outputs) : outputs.classesDir = generatedClasses derived := by
  unfold Project.outputsFor at h
  split at h
  · cases h
  · split at h
    · cases h
    · cases h
    · cases h
      rfl

/-- A body in which nothing is filled in but the source set it belongs to. -/
inductive TaskBody.Unfilled : TaskBody → Prop
  | blank (kind : TaskKind) : Unfilled (.blank kind)
  | javaCompile (sourceSet : String) : Unfilled (.javaCompile { sourceSet := sourceSet })
  | processResources (sourceSet : String) : Unfilled (.processResources { sourceSet := sourceSet })
  | classes (sourceSet : String) : Unfilled (.classes { sourceSet := sourceSet })

/-- A relation between projects that is kept by creating configurations, and by changing these and source sets in ways
    that leave alone what they are called and where they compile to, and take nothing from their classpaths. -/
structure Adjusting (R : Project → Project → Prop) : Prop extends Frame R where
  createConfiguration : ∀ name setup p, Keeps R (ConfigM.createConfiguration name setup) p
  extendConfiguration : ∀ child parent p, Keeps R (ConfigM.extendConfiguration child parent) p
  addDependency : ∀ configuration d p, Keeps R (ConfigM.addDependency configuration d) p
  editConfiguration : ∀ name (e : Configurations.Edit) p, Keeps R (ConfigM.onConfigurations (·.update name e.apply)) p
  editSourceSet : ∀ name {f : SourceSet → SourceSet} {p}, (∀ s, (f s).name = s.name) → (∀ s, (f s).output = s.output) →
    (∀ s : SourceSet, s.Widens (f s)) → Keeps R (ConfigM.onSourceSets (·.update name f)) p

/-- A relation between projects that is kept by creating source sets as well, whatever they are called. -/
structure Arranging (R : Project → Project → Prop) : Prop extends Adjusting R where
  createSourceSet : ∀ name p, Keeps R (ConfigM.createSourceSet name) p

namespace ConfigM

variable {R : Project → Project → Prop}

/-- A source set is created by building it, unless its name is taken. -/
theorem createSourceSet_cases (name : String) (p : Project) :
    (createSourceSet name p = .error (.duplicateSourceSetName name) p ∧ name ∈ p.sourceSets.names) ∨
      (createSourceSet name p = buildSourceSet name p ∧ name ∉ p.sourceSets.names) := by
  unfold createSourceSet
  rw [bind_of_ok (get_apply p)]
  by_cases hc : p.sourceSets.contains name = true
  · rw [if_pos hc]
    exact .inl ⟨rfl, SourceSets.contains_iff.mp hc⟩
  · rw [if_neg hc]
    exact .inr ⟨rfl, SourceSets.not_mem_of_contains hc⟩

theorem keeps_createSourceSetConfigurations (hR : Frame R)
    (h : ∀ name setup p, Keeps R (createConfiguration name setup) p) (name : String) (p : Project) :
    Keeps R (createSourceSetConfigurations name) p := by
  unfold createSourceSetConfigurations
  refine .bind hR (h _ _ _) fun _ _ _ => ?_
  refine .bind hR (h _ _ _) fun _ _ _ => ?_
  refine .bind hR (h _ _ _) fun _ _ _ => ?_
  exact .bind hR (h _ _ _) fun _ _ _ => h _ _ _

theorem configurationsOnly_createSourceSetConfigurations (name : String) (p : Project) :
    Keeps ConfigurationsOnly (createSourceSetConfigurations name) p :=
  keeps_createSourceSetConfigurations configurationsOnly_frame (fun _ _ _ => configurationsOnly_createConfiguration _ _)
    name p

theorem keeps_registerSourceSetTasks (hR : Frame R) {name : String}
    (hregister : ∀ task ∈ SourceSetName.tasks name, ∀ {body : TaskBody}, body.Unfilled →
      ∀ cs p, Keeps R (registerTask task body cs) p)
    (hdependsOn : ∀ dependent dependency p, Keeps R (dependsOn dependent dependency) p) (u : UnitId) (p : Project) :
    Keeps R (registerSourceSetTasks name u) p := by
  unfold registerSourceSetTasks
  refine .bind hR (hregister _ (by simp [SourceSetName.tasks]) (.javaCompile name) _ _) fun _ _ _ => ?_
  refine .bind hR (hregister _ (by simp [SourceSetName.tasks]) (.processResources name) _ _) fun _ _ _ => ?_
  refine .bind hR (hregister _ (by simp [SourceSetName.tasks]) (.classes name) _ _) fun _ _ _ => ?_
  exact .bind hR (hdependsOn _ _ _) fun _ _ _ => hdependsOn _ _ _

theorem tasksOnly_registerSourceSetTasks (name : String) (u : UnitId) (p : Project) :
    Keeps TasksOnly (registerSourceSetTasks name u) p :=
  keeps_registerSourceSetTasks tasksOnly_frame (fun _ _ _ _ _ _ => tasksOnly_onTasks _) (fun _ _ _ => tasksOnly_onTasks _)
    u p

/-- Creating a source set keeps what the operations it is made of keep. -/
theorem keeps_createSourceSet (hR : Frame R) {name : String}
    (hcreate : ∀ name setup p, Keeps R (createConfiguration name setup) p)
    (hlayOut : ∀ (p : Project) s, R p { p with sourceSets := p.sourceSets.layOut s })
    (htasks : ∀ u p, Keeps R (registerSourceSetTasks name u) p)
    (hregister : ∀ (p : Project) u, R p { p with sourceSets := p.sourceSets.register name u }) (p : Project) :
    Keeps R (createSourceSet name) p := by
  rcases createSourceSet_cases name p with ⟨hc, -⟩ | ⟨hc, -⟩
  · exact .of_eq_error hc (hR.refl p)
  refine .of_eq hc ?_
  unfold buildSourceSet
  refine .bind hR (keeps_createSourceSetConfigurations hR hcreate name p) fun _ q _ => .get_bind ?_
  refine .bind hR (.of_eq_ok (onSourceSets_ok rfl) (hlayOut q _)) fun _ _ _ => ?_
  exact .bind hR (htasks _ _) fun _ q _ => .of_eq_ok (onSourceSets_ok rfl) (hregister q _)

/-- A source set that was created was laid out after its configurations were created, and registered after its tasks
    were; its name was new. -/
theorem createSourceSet_ok {name : String} {p q : Project} {u : Unit} (h : createSourceSet name p = .ok u q) :
    ∃ q₁ q₂, createSourceSetConfigurations name p = .ok ⟨⟩ q₁ ∧ name ∉ q₁.sourceSets.names ∧
      registerSourceSetTasks name q₁.sourceSets.nextUnit
        { q₁ with sourceSets := q₁.sourceSets.layOut (conventionalSourceSet name) } = .ok ⟨⟩ q₂ ∧
      q₂ = { q₁ with sourceSets := q₁.sourceSets.layOut (conventionalSourceSet name), tasks := q₂.tasks } ∧
      q = { q₂ with sourceSets := q₂.sourceSets.register name q₁.sourceSets.nextUnit } := by
  rcases createSourceSet_cases name p with ⟨hc, -⟩ | ⟨hc, hnew⟩
  · rw [hc] at h
    cases h
  rw [hc] at h
  unfold buildSourceSet at h
  obtain ⟨_, q₁, h₁, h⟩ := bind_ok h
  obtain ⟨_, _, hget, h⟩ := bind_ok h
  cases hget
  obtain ⟨_, _, hlayOut, h⟩ := bind_ok h
  cases hlayOut
  obtain ⟨_, q₂, h₂, hregister⟩ := bind_ok h
  cases hregister
  have hq₁ : q₁.sourceSets = p.sourceSets :=
    ((configurationsOnly_createSourceSetConfigurations name p).of_ok h₁).sourceSets_eq
  exact ⟨q₁, q₂, h₁, hq₁ ▸ hnew, h₂, (tasksOnly_registerSourceSetTasks name _ _).of_ok h₂, rfl⟩

/-- The configurations of a source set are created one after another. -/
theorem createSourceSetConfigurations_ok {name : String} {p q : Project} {u : Unit}
    (h : createSourceSetConfigurations name p = .ok u q) :
    ∃ q₁ q₂ q₃ q₄,
      createConfiguration (implementation name) (bucketSetup "Implementation only dependencies" name) p = .ok ⟨⟩ q₁ ∧
      createConfiguration (compileOnly name) (bucketSetup "Compile only dependencies" name) q₁ = .ok ⟨⟩ q₂ ∧
      createConfiguration (runtimeOnly name) (bucketSetup "Runtime only dependencies" name) q₂ = .ok ⟨⟩ q₃ ∧
      createConfiguration (compileClasspath name) (compileClasspathSetup name) q₃ = .ok ⟨⟩ q₄ ∧
      createConfiguration (runtimeClasspath name) (runtimeClasspathSetup name) q₄ = .ok ⟨⟩ q := by
  unfold createSourceSetConfigurations at h
  obtain ⟨_, q₁, h₁, h⟩ := bind_ok h
  obtain ⟨_, q₂, h₂, h⟩ := bind_ok h
  obtain ⟨_, q₃, h₃, h⟩ := bind_ok h
  obtain ⟨_, q₄, h₄, h₅⟩ := bind_ok h
  exact ⟨q₁, q₂, q₃, q₄, h₁, h₂, h₃, h₄, h₅⟩

/-- Its tasks are registered one after another, and then made to depend on one another. -/
theorem registerSourceSetTasks_ok {name : String} {unit : UnitId} {p q : Project} {u : Unit}
    (h : registerSourceSetTasks name unit p = .ok u q) :
    ∃ q₁ q₂ q₃ q₄,
      registerTask (compileJava name) (.javaCompile { sourceSet := name }) [.compileFrom unit] p = .ok ⟨⟩ q₁ ∧
      registerTask (processResources name) (.processResources { sourceSet := name }) [.resourcesFrom unit] q₁ =
        .ok ⟨⟩ q₂ ∧
      registerTask (classes name) (.classes { sourceSet := name }) [] q₂ = .ok ⟨⟩ q₃ ∧
      dependsOn (classes name) (compileJava name) q₃ = .ok ⟨⟩ q₄ ∧
      dependsOn (classes name) (processResources name) q₄ = .ok ⟨⟩ q := by
  unfold registerSourceSetTasks at h
  obtain ⟨_, q₁, h₁, h⟩ := bind_ok h
  obtain ⟨_, q₂, h₂, h⟩ := bind_ok h
  obtain ⟨_, q₃, h₃, h⟩ := bind_ok h
  obtain ⟨_, q₄, h₄, h₅⟩ := bind_ok h
  exact ⟨q₁, q₂, q₃, q₄, h₁, h₂, h₃, h₄, h₅⟩

/-- A derived source set is created, and then it, the one it is derived from and its compile classpath are changed. -/
theorem deriveSourceSet_ok {name existing : String} {p q : Project} {u : Unit}
    (h : deriveSourceSet name existing p = .ok u q) :
    ∃ s q₁ q₂ q₃, p.sourceSets.get existing = .ok s ∧ createSourceSet name p = .ok ⟨⟩ q₁ ∧
      onSourceSets (·.update name fun s =>
        { s with
          java := [.project ⟨"build/generated/" ++ name ++ "Sources"⟩]
          resources := [.project ⟨"build/generated/" ++ name ++ "Resources"⟩] }) q₁ = .ok ⟨⟩ q₂ ∧
      onSourceSets (·.update existing fun s => { s with runtimeClasspath := s.runtimeClasspath.add (.output name) }) q₂ =
        .ok ⟨⟩ q₃ ∧
      onConfigurations (·.update (compileClasspath name) fun c =>
        { c with attributes := requestClassesAndResources c.attributes }) q₃ = .ok ⟨⟩ q := by
  unfold deriveSourceSet at h
  rw [bind_of_ok (get_apply p)] at h
  obtain ⟨s, hs, h⟩ := ofExcept_bind_ok h
  obtain ⟨_, q₁, h₁, h⟩ := bind_ok h
  obtain ⟨_, q₂, h₂, h⟩ := bind_ok h
  obtain ⟨_, q₃, h₃, h₄⟩ := bind_ok h
  exact ⟨s, q₁, q₂, q₃, hs, h₁, h₂, h₃, h₄⟩

/-- Looking for the parts changes nothing. -/
theorem keeps_requireProcessingParts (hR : Frame R) (kind : ProcessingKind) (derived input : String) (p : Project) :
    Keeps R (requireProcessingParts kind derived input) p := by
  unfold requireProcessingParts
  refine .get_bind (.bind hR (keeps_ofExcept hR _ _) fun _ _ _ => ?_)
  refine .bind hR (keeps_ofExcept hR _ _) fun _ _ _ => ?_
  refine .bind hR (keeps_ofExcept hR _ _) fun _ _ _ => ?_
  refine .bind hR (keeps_ofExcept hR _ _) fun _ _ _ => ?_
  split
  · exact .bind hR (keeps_ofExcept hR _ _) fun _ _ _ => .of_pure hR _ _
  · exact .of_pure hR _ _

/-- Creating a processing classpath creates a configuration and looks at what is there. -/
theorem keeps_createProcessingClasspath (hR : Frame R) (hcreate : ∀ name setup p, Keeps R (createConfiguration name setup) p)
    (task sourceSet : String) (p : Project) : Keeps R (createProcessingClasspath task sourceSet) p := by
  unfold createProcessingClasspath
  refine .get_bind (.bind hR (keeps_ofExcept hR _ _) fun _ _ _ => ?_)
  refine .get_bind (.bind hR (keeps_ofExcept hR _ _) fun _ _ _ => ?_)
  refine .get_bind (.bind hR (keeps_ofExcept hR _ _) fun _ _ _ => ?_)
  exact .bind hR (hcreate _ _ _) fun _ _ _ => .of_pure hR _ _

theorem keeps_declareProcessingInput (hR : Frame R) (hadd : ∀ configuration d p, Keeps R (addDependency configuration d) p)
    (kind : ProcessingKind) (input classpath : String) (p : Project) :
    Keeps R (declareProcessingInput kind input classpath) p := by
  unfold declareProcessingInput
  cases kind with
  | application => exact hadd _ _ _
  | tests main => exact .bind hR (hadd _ _ _) fun _ _ _ => hadd _ _ _

/-- Registering a processing task registers a task and adds lazy values. -/
theorem keeps_registerProcessingTask (hR : Frame R) {kind : ProcessingKind}
    (hregister : ∀ {body : TaskBody}, body.Unfilled → ∀ cs p, Keeps R (registerTask kind.taskName body cs) p)
    (hvalues : ∀ (p : Project) {cells : List Provider}, (∀ c ∈ cells, c.runs = 0) →
      R p { p with providers := p.providers ++ cells }) (input classpath : String)
    (roots : FileCollection) (outputs : ProcessingOutputs) (p : Project) :
    Keeps R (registerProcessingTask kind input classpath roots outputs) p := by
  unfold registerProcessingTask
  refine .get_bind ?_
  cases kind with
  | application =>
    exact .bind hR (hregister (.blank _) _ _) fun _ q _ => .of_modify (hvalues q (by simp))
  | tests main =>
    exact .bind hR (hregister (.blank _) _ _) fun _ q _ => .of_modify (hvalues q (by simp))

/-- Wiring a processing task keeps what the operations it is made of keep. -/
theorem keeps_wireProcessingTask (hR : Frame R) {kind : ProcessingKind} {derived input classpath : String}
    {outputs : ProcessingOutputs} (hadd : ∀ configuration d p, Keeps R (addDependency configuration d) p)
    (hinput : ∀ p, Keeps R (onSourceSets (·.update input fun s =>
      { s with runtimeClasspath := s.runtimeClasspath.add (.dir outputs.classesDir) })) p)
    (hextend : ∀ p, Keeps R (extendConfiguration (SourceSetName.compileClasspath derived) classpath) p)
    (hregister : ∀ roots outputs p, Keeps R (registerProcessingTask kind input classpath roots outputs) p)
    (hdependsOn : ∀ dependent dependency p, Keeps R (dependsOn dependent dependency) p) (p : Project) :
    Keeps R (wireProcessingTask kind derived input classpath outputs) p := by
  unfold wireProcessingTask
  refine .bind hR (keeps_requireProcessingParts hR _ _ _ _) fun _ _ _ => ?_
  refine .bind hR (keeps_declareProcessingInput hR hadd _ _ _ _) fun _ _ _ => ?_
  refine .bind hR (hinput _) fun _ _ _ => ?_
  refine .bind hR (hextend _) fun _ _ _ => ?_
  refine .bind hR (hregister _ _ _) fun _ _ _ => ?_
  refine .bind hR (hadd _ _ _) fun _ _ _ => ?_
  refine .bind hR (hdependsOn _ _ _) fun _ _ _ => ?_
  exact .bind hR (hdependsOn _ _ _) fun _ _ _ => .of_pure hR _ _

/-- A processing classpath is called after its task. It is set up with what the runtime classpath of the source set
    extends and with its attributes. -/
theorem createProcessingClasspath_ok {task sourceSet created : String} {p q : Project} (hs : p.sourceSets.Sound)
    (h : createProcessingClasspath task sourceSet p = .ok created q) :
    created = task ++ "Classpath" ∧ ∃ base, p.configurations.find? (SourceSetName.runtimeClasspath sourceSet) = some base ∧
      createConfiguration (task ++ "Classpath") (processingClasspathSetup task
        (p.configurations.graph.successors (SourceSetName.runtimeClasspath sourceSet)) base.attributes) p = .ok ⟨⟩ q := by
  unfold createProcessingClasspath at h
  rw [bind_of_ok (get_apply p)] at h
  obtain ⟨s, hset, h⟩ := ofExcept_bind_ok h
  rw [bind_of_ok (get_apply p)] at h
  obtain ⟨base, hbase, h⟩ := ofExcept_bind_ok h
  rw [bind_of_ok (get_apply p)] at h
  obtain ⟨parents, hparents, h⟩ := ofExcept_bind_ok h
  obtain ⟨_, _, hcreate, hreturn⟩ := bind_ok h
  cases hreturn
  rw [hs.name_of_find? (SourceSets.get_eq_ok hset)] at hbase
  rw [Configurations.extendsOf_eq_ok hparents, Configurations.name_of_get hbase] at hcreate
  exact ⟨rfl, base, Configurations.get_eq_ok hbase, hcreate⟩

/-- The operations a processing task is wired by. -/
theorem wireProcessingTask_ok {kind : ProcessingKind} {derived input classpath task : String}
    {outputs : ProcessingOutputs} {p q : Project}
    (h : wireProcessingTask kind derived input classpath outputs p = .ok task q) :
    task = kind.taskName ∧ ∃ s q₁ q₂ q₃ q₄ q₅ q₆, requireProcessingParts kind derived input p = .ok s p ∧
      declareProcessingInput kind input classpath p = .ok ⟨⟩ q₁ ∧
      onSourceSets (·.update input fun s =>
        { s with runtimeClasspath := s.runtimeClasspath.add (.dir outputs.classesDir) }) q₁ = .ok ⟨⟩ q₂ ∧
      extendConfiguration (SourceSetName.compileClasspath derived) classpath q₂ = .ok ⟨⟩ q₃ ∧
      registerProcessingTask kind input classpath (.ofList (s.output.classesDirs.map .dir)) outputs q₃ = .ok ⟨⟩ q₄ ∧
      addDependency (SourceSetName.implementation derived) (.files (.dir outputs.classesDir)) q₄ = .ok ⟨⟩ q₅ ∧
      dependsOn (SourceSetName.compileJava derived) kind.taskName q₅ = .ok ⟨⟩ q₆ ∧
      dependsOn (SourceSetName.processResources derived) kind.taskName q₆ = .ok ⟨⟩ q := by
  unfold wireProcessingTask at h
  obtain ⟨s, p', hparts, h⟩ := bind_ok h
  obtain rfl : p = p' :=
    (keeps_requireProcessingParts (R := Eq) ⟨fun _ => rfl, .trans⟩ kind derived input p).of_ok hparts
  obtain ⟨_, q₁, h₁, h⟩ := bind_ok h
  obtain ⟨_, q₂, h₂, h⟩ := bind_ok h
  obtain ⟨_, q₃, h₃, h⟩ := bind_ok h
  obtain ⟨_, q₄, h₄, h⟩ := bind_ok h
  obtain ⟨_, q₅, h₅, h⟩ := bind_ok h
  obtain ⟨_, q₆, h₆, h⟩ := bind_ok h
  obtain ⟨_, q₇, h₇, hreturn⟩ := bind_ok h
  cases hreturn
  exact ⟨rfl, s, q₁, q₂, q₃, q₄, q₅, q₆, hparts, h₁, h₂, h₃, h₄, h₅, h₆, h₇⟩

/-- The classpaths of the tests get the output of `main` in addition. -/
theorem widens_testConventions (s : SourceSet) : s.Widens
    { s with
      compileClasspath := (FileCollection.output SourceSetName.main).plus s.compileClasspath
      runtimeClasspath := s.runtimeClasspath.add (.output SourceSetName.main) } := by
  intro which e he
  cases which with
  | compile => exact FileCollection.contains_plus_right he _
  | runtime => exact FileCollection.contains_add he _

end ConfigM

namespace Adjusting

variable {R : Project → Project → Prop}

theorem applyJavaConventions (hR : Adjusting R) (hmain : ∀ p, Keeps R (ConfigM.createSourceSet SourceSetName.main) p)
    (htest : ∀ p, Keeps R (ConfigM.createSourceSet SourceSetName.test) p) (p : Project) :
    Keeps R ConfigM.applyJavaConventions p := by
  have hF := hR.toFrame
  unfold ConfigM.applyJavaConventions
  refine .bind hF (hmain _) fun _ _ _ => ?_
  refine .bind hF (htest _) fun _ _ _ => ?_
  refine .bind hF (hR.editSourceSet _ (fun _ => rfl) (fun _ => rfl) ConfigM.widens_testConventions) fun _ _ _ => ?_
  exact .bind hF (hR.extendConfiguration _ _ _) fun _ _ _ => hR.extendConfiguration _ _ _

theorem deriveSourceSet (hR : Adjusting R) {name : String} (hcreate : ∀ p, Keeps R (ConfigM.createSourceSet name) p)
    (existing : String) (p : Project) : Keeps R (ConfigM.deriveSourceSet name existing) p := by
  have hF := hR.toFrame
  unfold ConfigM.deriveSourceSet
  refine .get_bind (.bind hF (ConfigM.keeps_ofExcept hF _ _) fun _ _ _ => ?_)
  refine .bind hF (hcreate _) fun _ _ _ => ?_
  refine .bind hF (hR.editSourceSet _ (fun _ => rfl) (fun _ => rfl) fun _ => .of_eq rfl rfl) fun _ _ _ => ?_
  refine .bind hF (hR.editSourceSet _ (fun _ => rfl) (fun _ => rfl) fun s => s.widens_addRuntime _) fun _ _ _ => ?_
  exact hR.editConfiguration _ (.attributes ConfigM.requestClassesAndResources) _

/-- However the rest of a derivation goes, it keeps such a relation once the source set is created. -/
theorem after_deriveSourceSet (hR : Adjusting R) {name existing : String} {s : SourceSet} {p q : Project} {u : Unit}
    (hs : p.sourceSets.get existing = .ok s) (h : ConfigM.createSourceSet name p = .ok u q) :
    R q (after (ConfigM.deriveSourceSet name existing) p) := by
  have hF := hR.toFrame
  have hget : ConfigM.ofExcept (p.sourceSets.get existing) p = .ok s p := by
    rw [hs]
    rfl
  unfold ConfigM.deriveSourceSet
  rw [after_bind_of_ok (get_apply p), after_bind_of_ok hget, after_bind_of_ok h]
  refine Keeps.bind hF (hR.editSourceSet _ (fun _ => rfl) (fun _ => rfl) fun _ => .of_eq rfl rfl) fun _ _ _ => ?_
  refine .bind hF (hR.editSourceSet _ (fun _ => rfl) (fun _ => rfl) fun s => s.widens_addRuntime _) fun _ _ _ => ?_
  exact hR.editConfiguration _ (.attributes ConfigM.requestClassesAndResources) _

theorem after_test_applyJavaConventions (hR : Adjusting R) {p q r : Project} {u v : Unit}
    (h : ConfigM.createSourceSet SourceSetName.main p = .ok u q)
    (h' : ConfigM.createSourceSet SourceSetName.test q = .ok v r) : R r (after ConfigM.applyJavaConventions p) := by
  have hF := hR.toFrame
  unfold ConfigM.applyJavaConventions
  rw [after_bind_of_ok h, after_bind_of_ok h']
  refine Keeps.bind hF (hR.editSourceSet _ (fun _ => rfl) (fun _ => rfl) ConfigM.widens_testConventions) fun _ _ _ => ?_
  exact .bind hF (hR.extendConfiguration _ _ _) fun _ _ _ => hR.extendConfiguration _ _ _

theorem createProcessingClasspath (hR : Adjusting R) (task sourceSet : String) (p : Project) :
    Keeps R (ConfigM.createProcessingClasspath task sourceSet) p :=
  ConfigM.keeps_createProcessingClasspath hR.toFrame hR.createConfiguration task sourceSet p

theorem declareProcessingInput (hR : Adjusting R) (kind : ProcessingKind) (input classpath : String) (p : Project) :
    Keeps R (ConfigM.declareProcessingInput kind input classpath) p :=
  ConfigM.keeps_declareProcessingInput hR.toFrame hR.addDependency kind input classpath p

/-- Wiring keeps what changing tasks keeps, and what registering the processing task does. -/
theorem wireProcessingTask (hR : Adjusting R) {kind : ProcessingKind} {input classpath : String}
    (hregister : ∀ roots outputs p, Keeps R (ConfigM.registerProcessingTask kind input classpath roots outputs) p)
    (hdependsOn : ∀ dependent dependency p, Keeps R (ConfigM.dependsOn dependent dependency) p) (derived : String)
    (outputs : ProcessingOutputs) (p : Project) :
    Keeps R (ConfigM.wireProcessingTask kind derived input classpath outputs) p :=
  ConfigM.keeps_wireProcessingTask hR.toFrame hR.addDependency
    (fun _ => hR.editSourceSet _ (fun _ => rfl) (fun _ => rfl) fun s => s.widens_addRuntime _)
    (hR.extendConfiguration _ _) hregister hdependsOn p

end Adjusting

namespace Arranging

variable {R : Project → Project → Prop}

theorem applyJavaConventions (hR : Arranging R) (p : Project) : Keeps R ConfigM.applyJavaConventions p :=
  hR.toAdjusting.applyJavaConventions (hR.createSourceSet _) (hR.createSourceSet _) p

/-- Also if the second source set of a Java project cannot be created. -/
theorem after_main_applyJavaConventions (hR : Arranging R) {p q : Project} {u : Unit}
    (h : ConfigM.createSourceSet SourceSetName.main p = .ok u q) : R q (after ConfigM.applyJavaConventions p) := by
  have hF := hR.toFrame
  unfold ConfigM.applyJavaConventions
  rw [after_bind_of_ok h]
  refine Keeps.bind hF (hR.createSourceSet _ _) fun _ _ _ => ?_
  refine .bind hF (hR.editSourceSet _ (fun _ => rfl) (fun _ => rfl) ConfigM.widens_testConventions) fun _ _ _ => ?_
  exact .bind hF (hR.extendConfiguration _ _ _) fun _ _ _ => hR.extendConfiguration _ _ _

theorem deriveSourceSet (hR : Arranging R) (name existing : String) (p : Project) :
    Keeps R (ConfigM.deriveSourceSet name existing) p :=
  hR.toAdjusting.deriveSourceSet (hR.createSourceSet name) existing p

end Arranging

end BuildGraph

/-
  BuildGraph.Proofs.Project.Parts: what operations do to the parts a project falls into.

  A project divides into parts if its outline consists of them. An operation that succeeds puts new things into
  one part, or changes what belongs to it: the project after it divides into that part with the change made,
  and the other parts as they were. Which part new things are put into is free; they may be a part of their own.

  What the conventions and the plugins do is described by what it makes of one part (`Outline.addSourceSet`,
  `Outline.derive`, `Outline.wire`), and shown to be that from the operations it is made of.
-/

import BuildGraph.Proofs.Project.Outline

namespace BuildGraph

open Operation Outline Project SourceSetName

/-- A sound project whose outline consists of the given parts. -/
structure Project.Divides (p : Project) (parts : List Outline) : Prop where
  sound : p.Sound
  consists : p.outline.Consists parts

namespace ConfigM

variable {p q : Project} {name child parent dependent dependency : String} {u : Unit} {o : Outline} {rest : List Outline}

/-! ## Outlines after basic operations -/

theorem outline_eq (hs : ∀ name, q.sourceSets.entryOf? name = o (.sourceSet name))
    (hc : ∀ name, q.configurations.entryOf? name = o (.configuration name))
    (ht : ∀ name, q.tasks.entryOf? name = o (.task name)) : q.outline = o := by
  funext k
  cases k with
  | sourceSet name => exact hs name
  | configuration name => exact hc name
  | task name => exact ht name

theorem outline_updateConfiguration {f : Configuration → Configuration} (hf : ∀ c, (f c).name = c.name)
    (h : onConfigurations (·.update name f) p = .ok u q) :
    q.outline = p.outline.change (.configuration name) (.onConfiguration f) := by
  obtain ⟨r, hr, rfl⟩ := onConfigurations_eq_ok h
  refine outline_eq (fun _ => rfl) (fun other => ?_) fun _ => rfl
  show r.entryOf? other = _
  rw [Configurations.update_eq_ok hr, Configurations.entryOf?_updateAll hf]
  simp [Outline.change, outline]

theorem outline_extendConfiguration (h : extendConfiguration child parent p = .ok u q) :
    q.outline = p.outline.change (.configuration child) (.extending parent) := by
  obtain ⟨r, hr, rfl⟩ := onConfigurations_eq_ok h
  refine outline_eq (fun _ => rfl) (fun other => ?_) fun _ => rfl
  show r.entryOf? other = _
  rw [Configurations.entryOf?_extend hr]
  simp [Outline.change, outline]

/-- A configuration is created under a new name. -/
theorem outline_createConfiguration {setup : List Configurations.Setup} (hs : p.Sound)
    (h : createConfiguration name setup p = .ok u q) :
    p.outline (.configuration name) = none ∧ q.outline = p.outline.set (.configuration name) (.created name setup) := by
  have hr := hs.configurations.sound
  have hkeep := (configurationsOnly_createConfiguration name setup).of_ok h
  obtain ⟨r, hd, hrun⟩ := createConfiguration_eq_ok h
  have hnew : r.entryOf? name = some (.configuration { name := name } []) := by
    rw [Configurations.entryOf?_declare hr hd, if_pos rfl]
  refine ⟨?_, outline_eq (fun other => ?_) (fun other => ?_) fun other => ?_⟩
  · show p.configurations.entryOf? name = none
    rw [Configurations.entryOf?, Configurations.find?_eq_none_iff.mpr (Configurations.declare_eq_ok hd).1]
    rfl
  · rw [hkeep]
    rfl
  · rw [Configurations.entryOf?_runSetup hnew hrun, Configurations.entryOf?_declare hr hd]
    by_cases ho : other = name <;> simp [Outline.set, outline, ho, Entry.created]
  · rw [hkeep]
    rfl

/-- Laying a source set out puts nothing under any name yet. -/
theorem outline_layOut (hs : p.Sound) (s : SourceSet) (h : onSourceSets (fun r => .ok (r.layOut s)) p = .ok u q) :
    q.outline = p.outline := by
  cases h
  exact outline_eq (SourceSets.entryOf?_layOut hs.sourceSets s) (fun _ => rfl) fun _ => rfl

theorem outline_register {v : UnitId} {s : SourceSet} (hnew : name ∉ p.sourceSets.names)
    (hv : p.sourceSets.units[v]? = some s) (h : onSourceSets (fun r => .ok (r.register name v)) p = .ok u q) :
    q.outline = p.outline.set (.sourceSet name) (.sourceSet s) := by
  cases h
  refine outline_eq (fun other => ?_) (fun _ => rfl) fun _ => rfl
  rw [SourceSets.entryOf?_register hnew hv]
  simp [Outline.set, outline]

theorem outline_updateSourceSet {f : SourceSet → SourceSet} (hs : p.Sound)
    (h : onSourceSets (·.update name f) p = .ok u q) :
    q.outline = p.outline.change (.sourceSet name) (.onSourceSet f) := by
  obtain ⟨r, hr, rfl⟩ := onSourceSets_eq_ok h
  refine outline_eq (fun other => ?_) (fun _ => rfl) fun _ => rfl
  show r.entryOf? other = _
  rw [SourceSets.entryOf?_update hs.sourceSets hr]
  simp [Outline.change, outline]

theorem outline_registerTask {body : TaskBody} {cs : List Configurator} (hs : p.Sound)
    (h : registerTask name body cs p = .ok u q) :
    p.outline (.task name) = none ∧ q.outline = p.outline.set (.task name) (.task body.kind []) := by
  obtain ⟨r, hr, rfl⟩ := onTasks_eq_ok h
  refine ⟨?_, outline_eq (fun _ => rfl) (fun _ => rfl) fun other => ?_⟩
  · show p.tasks.entryOf? name = none
    rw [Tasks.entryOf?, Tasks.find?_eq_none_iff.mpr (Tasks.register_eq_ok hr).1]
    rfl
  · show r.entryOf? other = _
    rw [Tasks.entryOf?_register hs.tasks hr]
    simp [Outline.set, outline]

theorem outline_dependsOn (h : dependsOn dependent dependency p = .ok u q) :
    q.outline = p.outline.change (.task dependent) (.awaiting dependency) := by
  cases h
  refine outline_eq (fun _ => rfl) (fun _ => rfl) fun other => ?_
  show (p.tasks.dependsOn dependent dependency).entryOf? other = _
  rw [Tasks.entryOf?_dependsOn]
  simp [Outline.change, outline]

theorem outline_addProviders {cells : List Provider} (h : addProviders cells p = .ok u q) :
    q.outline = p.outline := by
  cases h
  exact outline_eq (fun _ => rfl) (fun _ => rfl) fun _ => rfl

end ConfigM

/-! ## Basic operations on a part -/

namespace Project.Divides

variable {p q : Project} {name child parent dependent dependency : String} {u : Unit} {o : Outline} {parts rest : List Outline}

theorem cons_blank (h : p.Divides parts) : p.Divides (blank :: parts) := ⟨h.sound, h.consists.cons_blank⟩

theorem perm (h : p.Divides parts) {others : List Outline} (hp : parts.Perm others) : p.Divides others :=
  ⟨h.sound, h.consists.perm hp⟩

theorem congr (h : p.Divides parts) (hq : Evolves p q) (he : q.outline = p.outline) : q.Divides parts :=
  ⟨h.sound.evolves hq, he ▸ h.consists⟩

theorem set {k : Key} {e : Entry} (h : p.Divides (o :: rest)) (hq : Evolves p q) (hk : p.outline k = none ∨ o.Has k)
    (he : q.outline = p.outline.set k e) : q.Divides (o.set k e :: rest) :=
  ⟨h.sound.evolves hq, he ▸ h.consists.set hk e⟩

theorem change {k : Key} {f : Entry → Entry} (h : p.Divides (o :: rest)) (hq : Evolves p q) (hk : o.Has k)
    (he : q.outline = p.outline.change k f) : q.Divides (o.change k f :: rest) :=
  ⟨h.sound.evolves hq, he ▸ h.consists.change hk f⟩

theorem createConfiguration {setup : List Configurations.Setup} (h : p.Divides (o :: rest))
    (hq : ConfigM.createConfiguration name setup p = .ok u q) :
    q.Divides (o.set (.configuration name) (.created name setup) :: rest) := by
  obtain ⟨hnew, he⟩ := ConfigM.outline_createConfiguration h.sound hq
  exact h.set ((ConfigM.evolves_createConfiguration _ _).of_ok hq) (.inl hnew) he

theorem editConfiguration (e : Configurations.Edit) (h : p.Divides (o :: rest)) (hk : o.Has (.configuration name))
    (hq : ConfigM.onConfigurations (·.update name e.apply) p = .ok u q) :
    q.Divides (o.change (.configuration name) (.onConfiguration e.apply) :: rest) :=
  h.change ((ConfigM.evolves_editConfiguration name e).of_ok hq) hk (ConfigM.outline_updateConfiguration e.name_apply hq)

theorem addDependency {d : Dependency} (h : p.Divides (o :: rest)) (hk : o.Has (.configuration name))
    (hq : ConfigM.addDependency name d p = .ok u q) :
    q.Divides (o.change (.configuration name) (.declaring d) :: rest) :=
  h.change ((ConfigM.evolves_addDependency name d).of_ok hq) hk (ConfigM.outline_updateConfiguration (fun _ => rfl) hq)

theorem extendConfiguration (h : p.Divides (o :: rest)) (hk : o.Has (.configuration child))
    (hq : ConfigM.extendConfiguration child parent p = .ok u q) :
    q.Divides (o.change (.configuration child) (.extending parent) :: rest) :=
  h.change ((ConfigM.evolves_extendConfiguration child parent).of_ok hq) hk (ConfigM.outline_extendConfiguration hq)

theorem updateSourceSet {f : SourceSet → SourceSet} (h : p.Divides (o :: rest)) (hk : o.Has (.sourceSet name))
    (hq : ConfigM.onSourceSets (·.update name f) p = .ok u q) (hf : ∀ s, (f s).name = s.name) :
    q.Divides (o.change (.sourceSet name) (.onSourceSet f) :: rest) :=
  h.change ((ConfigM.evolves_editSourceSet name hf).of_ok hq) hk (ConfigM.outline_updateSourceSet h.sound hq)

theorem registerTask {body : TaskBody} {cs : List Configurator} (h : p.Divides (o :: rest))
    (hq : ConfigM.registerTask name body cs p = .ok u q) :
    q.Divides (o.set (.task name) (.task body.kind []) :: rest) := by
  obtain ⟨hnew, he⟩ := ConfigM.outline_registerTask h.sound hq
  exact h.set ((ConfigM.evolves_registerTask _ _ _).of_ok hq) (.inl hnew) he

/-- What belongs to a part is there. -/
theorem mem_tasks (h : p.Divides (o :: rest)) (hk : o.Has (.task name)) : name ∈ p.tasks.names := by
  have hp : p.tasks.entryOf? name ≠ none := Option.isSome_iff_ne_none.mp (h.consists.has hk)
  refine Decidable.not_not.mp fun hn => hp ?_
  rw [Tasks.entryOf?, Tasks.find?_eq_none_iff.mpr hn]
  rfl

theorem dependsOn (h : p.Divides (o :: rest)) (hd : o.Has (.task dependent)) (hy : o.Has (.task dependency))
    (hq : ConfigM.dependsOn dependent dependency p = .ok u q) :
    q.Divides (o.change (.task dependent) (.awaiting dependency) :: rest) :=
  h.change ((ConfigM.evolves_dependsOn (h.mem_tasks hd) (h.mem_tasks hy)).of_ok hq) hd (ConfigM.outline_dependsOn hq)

end Project.Divides

/-! ## Conventions and plugins on a part -/

/-- The type of a processing task. -/
def ProcessingKind.taskKind : ProcessingKind → TaskKind
  | .application => .processAot
  | .tests _ => .processTestAot

namespace Outline

/-- Puts a configuration in, set up. -/
def configure (o : Outline) (name : String) (setup : List Configurations.Setup) : Outline :=
  o.set (.configuration name) (.created name setup)

def addSourceSetConfigurations (name : String) (o : Outline) : Outline :=
  o.configure (implementation name) (ConfigM.bucketSetup "Implementation only dependencies" name)
    |>.configure (compileOnly name) (ConfigM.bucketSetup "Compile only dependencies" name)
    |>.configure (runtimeOnly name) (ConfigM.bucketSetup "Runtime only dependencies" name)
    |>.configure (compileClasspath name) (ConfigM.compileClasspathSetup name)
    |>.configure (runtimeClasspath name) (ConfigM.runtimeClasspathSetup name)

def addSourceSetTasks (name : String) (o : Outline) : Outline :=
  o.set (.task (compileJava name)) (.task .javaCompile [])
    |>.set (.task (processResources name)) (.task .processResources [])
    |>.set (.task (classes name)) (.task .classes [])
    |>.change (.task (classes name)) (.awaiting (compileJava name))
    |>.change (.task (classes name)) (.awaiting (processResources name))

/-- Puts a source set in, with its configurations and tasks. -/
def addSourceSet (name : String) (o : Outline) : Outline :=
  ((o.addSourceSetConfigurations name).addSourceSetTasks name).set (.sourceSet name)
    (.sourceSet (ConfigM.conventionalSourceSet name))

/-- Puts the source sets `main` and `test` in, and has the tests use what `main` has. -/
def addConventions (o : Outline) : Outline :=
  (o.addSourceSet main).addSourceSet test
    |>.change (.sourceSet test) (.onSourceSet fun s =>
      { s with
        compileClasspath := (FileCollection.output main).plus s.compileClasspath
        runtimeClasspath := s.runtimeClasspath.add (.output main) })
    |>.change (.configuration (implementation test)) (.extending (implementation main))
    |>.change (.configuration (runtimeOnly test)) (.extending (runtimeOnly main))

/-- Puts a source set for generated code in. -/
def derive (name existing : String) (o : Outline) : Outline :=
  o.addSourceSet name
    |>.change (.sourceSet name) (.onSourceSet fun s =>
      { s with
        java := [.project ⟨"build/generated/" ++ name ++ "Sources"⟩]
        resources := [.project ⟨"build/generated/" ++ name ++ "Resources"⟩] })
    |>.change (.sourceSet existing) (.onSourceSet fun s =>
      { s with runtimeClasspath := s.runtimeClasspath.add (.output name) })
    |>.change (.configuration (compileClasspath name)) (.onConfiguration fun c =>
      { c with attributes := ConfigM.requestClassesAndResources c.attributes })

/-- Puts the classpath of `task` in, which stands in for the runtime classpath of `sourceSet`. -/
def addClasspath (task sourceSet : String) (o : Outline) : Outline :=
  match o (.configuration (runtimeClasspath sourceSet)) with
  | some (.configuration base parents) =>
    o.configure (task ++ "Classpath") (ConfigM.processingClasspathSetup task parents base.attributes)
  | _ => o

def declareInput (kind : ProcessingKind) (input classpath : String) (o : Outline) : Outline :=
  match kind with
  | .tests main =>
    (o.change (.configuration classpath) (.declaring (.files (.output main)))).change (.configuration classpath)
      (.declaring (.files (.output input)))
  | .application => o.change (.configuration classpath) (.declaring (.files (.output input)))

/-- Puts the processing task of `kind` in, and has the source sets use it. -/
def wire (kind : ProcessingKind) (derived input classpath : String) (o : Outline) : Outline :=
  o.declareInput kind input classpath
    |>.change (.sourceSet input) (.onSourceSet fun s =>
      { s with runtimeClasspath := s.runtimeClasspath.add (.dir (generatedClasses derived)) })
    |>.change (.configuration (compileClasspath derived)) (.extending classpath)
    |>.set (.task kind.taskName) (.task kind.taskKind [])
    |>.change (.configuration (implementation derived)) (.declaring (.files (.dir (generatedClasses derived))))
    |>.change (.task (compileJava derived)) (.awaiting kind.taskName)
    |>.change (.task (processResources derived)) (.awaiting kind.taskName)

/-- What a source set has names for, latest first. -/
def sourceSetKeys (name : String) : List Key :=
  [.sourceSet name, .task (classes name), .task (processResources name), .task (compileJava name),
    .configuration (runtimeClasspath name), .configuration (compileClasspath name), .configuration (runtimeOnly name),
    .configuration (compileOnly name), .configuration (implementation name)]

theorem has_addSourceSet {o : Outline} {name : String} {k : Key} :
    (o.addSourceSet name).Has k ↔ k ∈ sourceSetKeys name ∨ o.Has k := by
  simp [addSourceSet, addSourceSetTasks, addSourceSetConfigurations, configure, sourceSetKeys, or_assoc]

@[simp] theorem has_declareInput {o : Outline} {kind : ProcessingKind} {input classpath : String} {k : Key} :
    (o.declareInput kind input classpath).Has k ↔ o.Has k := by
  cases kind <;> simp [declareInput]

end Outline

namespace Project.Divides

variable {p q : Project} {name existing : String} {u : Unit} {o : Outline} {parts rest : List Outline}

theorem createSourceSetConfigurations (h : p.Divides (o :: rest))
    (hq : ConfigM.createSourceSetConfigurations name p = .ok u q) :
    q.Divides (o.addSourceSetConfigurations name :: rest) := by
  obtain ⟨q₁, q₂, q₃, q₄, h₁, h₂, h₃, h₄, h₅⟩ := ConfigM.createSourceSetConfigurations_ok hq
  exact (((h.createConfiguration h₁).createConfiguration h₂).createConfiguration h₃).createConfiguration h₄
    |>.createConfiguration h₅

theorem registerSourceSetTasks {unit : UnitId} (h : p.Divides (o :: rest))
    (hq : ConfigM.registerSourceSetTasks name unit p = .ok u q) : q.Divides (o.addSourceSetTasks name :: rest) := by
  obtain ⟨q₁, q₂, q₃, q₄, h₁, h₂, h₃, h₄, h₅⟩ := ConfigM.registerSourceSetTasks_ok hq
  have hregistered := ((h.registerTask h₁).registerTask h₂).registerTask h₃
  exact (hregistered.dependsOn (by simp) (by simp) h₄).dependsOn (by simp) (by simp) h₅

theorem createSourceSet (h : p.Divides (o :: rest)) (hq : ConfigM.createSourceSet name p = .ok u q) :
    q.Divides (o.addSourceSet name :: rest) := by
  obtain ⟨q₁, q₂, h₁, hnew, h₂, hq₂, rfl⟩ := ConfigM.createSourceSet_ok hq
  have hlaid : (Project.Divides { q₁ with sourceSets := q₁.sourceSets.layOut (ConfigM.conventionalSourceSet name) }
      (o.addSourceSetConfigurations name :: rest)) := by
    have h := h.createSourceSetConfigurations h₁
    exact h.congr (.single (.sourceSets (.layOut _))) (ConfigM.outline_layOut h.sound _ rfl)
  have hnew₂ : name ∉ q₂.sourceSets.names := by
    rw [hq₂]
    exact hnew
  have hunit : q₂.sourceSets.units[q₁.sourceSets.nextUnit]? = some (ConfigM.conventionalSourceSet name) := by
    rw [hq₂]
    exact List.getElem?_concat_length
  exact (hlaid.registerSourceSetTasks h₂).set (.single (.sourceSets (.register hnew₂ hunit rfl)))
    (.inl (SourceSets.entryOf?_of_not_mem hnew₂)) (ConfigM.outline_register hnew₂ hunit rfl)

theorem applyJavaConventions (h : p.Divides (o :: rest)) (hq : ConfigM.applyJavaConventions p = .ok u q) :
    q.Divides (o.addConventions :: rest) := by
  unfold ConfigM.applyJavaConventions at hq
  obtain ⟨_, q₁, h₁, hq⟩ := bind_ok hq
  obtain ⟨_, q₂, h₂, hq⟩ := bind_ok hq
  obtain ⟨_, q₃, h₃, hq⟩ := bind_ok hq
  obtain ⟨_, q₄, h₄, h₅⟩ := bind_ok hq
  have hsets := (h.createSourceSet h₁).createSourceSet h₂
  have hclasspaths := hsets.updateSourceSet (has_addSourceSet.mpr (.inl (by simp [sourceSetKeys]))) h₃ fun _ => rfl
  refine (hclasspaths.extendConfiguration ?_ h₄).extendConfiguration ?_ h₅
  · simp [has_addSourceSet, sourceSetKeys]
  · simp [has_addSourceSet, sourceSetKeys]

theorem deriveSourceSet (h : p.Divides (o :: rest)) (hk : o.Has (.sourceSet existing))
    (hq : ConfigM.deriveSourceSet name existing p = .ok u q) : q.Divides (o.derive name existing :: rest) := by
  obtain ⟨s, q₁, q₂, q₃, -, h₁, h₂, h₃, h₄⟩ := ConfigM.deriveSourceSet_ok hq
  have hset := h.createSourceSet h₁
  have hdirs := hset.updateSourceSet (has_addSourceSet.mpr (.inl (by simp [sourceSetKeys]))) h₂ fun _ => rfl
  have hruntime := hdirs.updateSourceSet (by simp [has_addSourceSet, hk]) h₃ fun _ => rfl
  refine hruntime.editConfiguration (.attributes ConfigM.requestClassesAndResources) ?_ h₄
  simp [has_addSourceSet, sourceSetKeys]

/-- A part that has a configuration tells all about it. -/
theorem lookup_configuration (h : p.Divides (o :: rest)) (hk : o.Has (.configuration name)) :
    ∃ c, p.configurations.find? name = some c ∧
      o (.configuration name) = some (.configuration c (p.configurations.graph.successors name)) := by
  obtain ⟨e, he⟩ := has_iff.mp hk
  have hp : p.configurations.entryOf? name = some e := h.consists.lookup he
  obtain ⟨c, hc, rfl⟩ := Option.map_eq_some_iff.mp hp
  exact ⟨c, hc, he⟩

theorem createProcessingClasspath {task sourceSet created : String} (h : p.Divides (o :: rest))
    (hk : o.Has (.configuration (runtimeClasspath sourceSet)))
    (hq : ConfigM.createProcessingClasspath task sourceSet p = .ok created q) :
    q.Divides (o.addClasspath task sourceSet :: rest) := by
  obtain ⟨-, base, hbase, hcreate⟩ := ConfigM.createProcessingClasspath_ok h.sound.sourceSets hq
  obtain ⟨c, hc, ho⟩ := h.lookup_configuration hk
  cases hc.symm.trans hbase
  simp only [addClasspath, ho]
  exact h.createConfiguration hcreate

theorem declareProcessingInput {kind : ProcessingKind} {input classpath : String} (h : p.Divides (o :: rest))
    (hk : o.Has (.configuration classpath)) (hq : ConfigM.declareProcessingInput kind input classpath p = .ok u q) :
    q.Divides (o.declareInput kind input classpath :: rest) := by
  unfold ConfigM.declareProcessingInput at hq
  cases kind with
  | application => exact h.addDependency hk hq
  | tests main =>
    obtain ⟨_, q₁, h₁, h₂⟩ := bind_ok hq
    exact (h.addDependency hk h₁).addDependency (has_change.mpr hk) h₂

theorem registerProcessingTask {kind : ProcessingKind} {input classpath : String} {roots : FileCollection}
    {outputs : ProcessingOutputs} (h : p.Divides (o :: rest))
    (hq : ConfigM.registerProcessingTask kind input classpath roots outputs p = .ok u q) :
    q.Divides (o.set (.task kind.taskName) (.task kind.taskKind []) :: rest) := by
  unfold ConfigM.registerProcessingTask at hq
  rw [bind_of_ok (get_apply p)] at hq
  cases kind with
  | _ =>
    obtain ⟨_, q₁, h₁, h₂⟩ := bind_ok hq
    exact (h.registerTask h₁).congr ((ConfigM.evolves_addProviders _).of_ok h₂) (ConfigM.outline_addProviders h₂)

/-- What a part has to have for a processing task to be wired in it. -/
structure Wirable (o : Outline) (derived input classpath : String) : Prop where
  input : o.Has (.sourceSet input)
  classpath : o.Has (.configuration classpath)
  compileClasspath : o.Has (.configuration (compileClasspath derived))
  implementation : o.Has (.configuration (implementation derived))
  compile : o.Has (.task (compileJava derived))
  resources : o.Has (.task (processResources derived))

instance (o : Outline) (derived input classpath : String) : Decidable (Wirable o derived input classpath) :=
  decidable_of_iff (o.Has (.sourceSet input) ∧ o.Has (.configuration classpath) ∧
      o.Has (.configuration (SourceSetName.compileClasspath derived)) ∧
      o.Has (.configuration (SourceSetName.implementation derived)) ∧ o.Has (.task (compileJava derived)) ∧
      o.Has (.task (processResources derived)))
    ⟨fun ⟨hinput, hclasspath, hcompile, himplementation, hjava, hresources⟩ =>
        ⟨hinput, hclasspath, hcompile, himplementation, hjava, hresources⟩,
      fun h => ⟨h.input, h.classpath, h.compileClasspath, h.implementation, h.compile, h.resources⟩⟩

theorem wireProcessingTask {kind : ProcessingKind} {derived input classpath task : String} {outputs : ProcessingOutputs}
    (h : p.Divides (o :: rest)) (hk : Wirable o derived input classpath)
    (houtputs : outputs.classesDir = generatedClasses derived)
    (hq : ConfigM.wireProcessingTask kind derived input classpath outputs p = .ok task q) :
    q.Divides (o.wire kind derived input classpath :: rest) := by
  obtain ⟨-, s, q₁, q₂, q₃, q₄, q₅, q₆, -, h₁, h₂, h₃, h₄, h₅, h₆, h₇⟩ := ConfigM.wireProcessingTask_ok hq
  rw [houtputs] at h₂ h₅
  have hinput := h.declareProcessingInput hk.classpath h₁
  have hruntime := hinput.updateSourceSet (by simp [hk.input]) h₂ fun _ => rfl
  have hcompile := hruntime.extendConfiguration (by simp [hk.compileClasspath]) h₃
  have htask := hcompile.registerProcessingTask h₄
  have hclasses := htask.addDependency (by simp [hk.implementation]) h₅
  refine (hclasses.dependsOn ?_ ?_ h₆).dependsOn ?_ ?_ h₇
  · simp [hk.compile]
  · simp
  · simp [hk.resources]
  · simp

/-- The task that knows the main class may be a part of its own. -/
theorem registerMainClassTask {mainClass : Option String} (h : p.Divides (o :: rest))
    (hq : ConfigM.registerMainClassTask mainClass p = .ok u q) :
    q.Divides (o.set (.task ConfigM.mainClassTask) (.task .resolveMainClassName []) :: rest) := by
  unfold ConfigM.registerMainClassTask at hq
  rw [bind_of_ok (get_apply p)] at hq
  obtain ⟨_, q₁, h₁, h₂⟩ := bind_ok hq
  exact (h.registerTask h₁).congr ((ConfigM.evolves_addProviders _).of_ok h₂) (ConfigM.outline_addProviders h₂)

end Project.Divides

end BuildGraph

/-
  BuildGraph.Proofs.Script.Action: what every action keeps.

  An action is made of a few basic operations on the project, and looks at the project in between. So
  whatever it does, and however far it comes, it keeps every relation that these operations keep
  (`Acting`). Where it matters what is created, only the other operations are to keep the relation in any case
  (`Tending`), and where it matters as well what becomes of which configuration, only those that create nothing and
  leave the configurations alone (`Handling`). An action that replaces a classpath is dealt with apart.

  Some actions compute: they realize tasks and compute lazy values, and edit nothing. The others edit, and compute
  nothing. So it can be shown apart what is kept by the ones (`Computing`) and by the others (`Editing`).

  - `Action.run_edits`: what an action that computes nothing keeps, if all it creates and changes does.
  - `Action.run_computes`: what an action that computes keeps, if configuring a task does.
  - `Action.run_handles`: an action keeps a relation of the third kind, if all it creates and changes does.
  - `Action.run_tends`: an action keeps a relation of the second kind, if what it creates does.
  - `Action.run_keeps`: every action that replaces no classpath keeps one of the first kind.
-/

import BuildGraph.Proofs.Project.Arrangement
import BuildGraph.Proofs.Project.Evaluation
import BuildGraph.Proofs.Project.Operations
import BuildGraph.Script.Session

namespace BuildGraph

open Operation Project

/-- A relation between projects that is kept when lazy values are added that were never computed. -/
structure Supplying (R : Project → Project → Prop) : Prop extends Frame R where
  supply : ∀ (p : Project) {cells : List Provider}, (∀ c ∈ cells, c.runs = 0) →
    R p { p with providers := p.providers ++ cells }

/-- A relation between projects that is kept by all that is computed on demand. -/
structure Computing (R : Project → Project → Prop) : Prop extends Evaluating R, Supplying R

/-- A relation between projects that is kept by all that the actions that compute nothing are made of, but for what they
    create and for what becomes of configurations. -/
structure Editing (R : Project → Project → Prop) : Prop extends Supplying R where
  values : ∀ (p : Project) group buildDir properties,
    R p { p with group := group, layout := { p.layout with buildDir := buildDir }, properties := properties }
  reshape : ∀ name {f : SourceSet → SourceSet} {p}, (∀ s, (f s).name = s.name) → (∀ s : SourceSet, s.Widens (f s)) →
    Keeps R (ConfigM.onSourceSets (·.update name f)) p
  dependsOn : ∀ {dependent dependency p}, dependent ∈ p.tasks.names → dependency ∈ p.tasks.names →
    Keeps R (ConfigM.dependsOn dependent dependency) p

/-- A relation between projects that is kept by all that actions are made of, but for what they create and for what
    becomes of configurations. -/
structure Handling (R : Project → Project → Prop) : Prop extends Realizing R, Editing R where
  wait : ∀ p name cs, R p { p with tasks := p.tasks.update name fun t => { t with pending := t.pending ++ cs } }

/-- A relation between projects that is kept by all that actions are made of, but for what they create. -/
structure Tending (R : Project → Project → Prop) : Prop extends Adjusting R, Handling R

/-- A relation between projects that is kept by all that actions create. -/
structure Creating (R : Project → Project → Prop) : Prop extends Arranging R where
  insert : ∀ name p, Keeps R (ConfigM.onSourceSets (·.insert (.conventional name))) p
  registerTask : ∀ name body cs p, Keeps R (ConfigM.registerTask name body cs) p
  wireProcessingTask : ∀ kind derived input classpath outputs p,
    Keeps R (ConfigM.wireProcessingTask kind derived input classpath outputs) p

/-- A relation between projects that is kept by all that actions are made of. -/
structure Acting (R : Project → Project → Prop) : Prop extends Creating R, Tending R

/-- A relation between the projects of two workspaces. -/
def Workspace.On (R : Project → Project → Prop) (w v : Workspace) : Prop := R w.project v.project

theorem Workspace.on_frame {R : Project → Project → Prop} (hR : Frame R) : Frame (Workspace.On R) :=
  ⟨fun w => hR.refl w.project, hR.trans⟩

namespace ScriptM

variable {R : Project → Project → Prop} {w : Workspace}

/-! ## What actions are made of -/

theorem onProject_ok {α : Type} {m : ConfigM α} {a : α} {p : Project} (h : m w.project = .ok a p) :
    onProject m w = .ok a { w with project := p } := by rw [onProject, h]

theorem onProject_error {α : Type} {m : ConfigM α} {e : ConfigError} {p : Project} (h : m w.project = .error e p) :
    onProject m w = .error e { w with project := p } := by rw [onProject, h]

theorem onProject_eq_ok {α : Type} {m : ConfigM α} {a : α} {v : Workspace} (h : onProject m w = .ok a v) :
    m w.project = .ok a v.project := by
  cases hm : m w.project with
  | ok b p =>
    rw [onProject_ok hm] at h
    cases h
    rfl
  | error e p =>
    rw [onProject_error hm] at h
    cases h

/-- An operation on the project that is answered succeeded. -/
theorem onProject_answer_ok {α : Type} {m : ConfigM α} {f : α → Answer} {answer : Answer} {v : Workspace}
    (h : (onProject m >>= fun a => pure (f a)) w = .ok answer v) : ∃ a, m w.project = .ok a v.project := by
  obtain ⟨a, u, h, hreturn⟩ := bind_ok h
  cases hreturn
  exact ⟨a, onProject_eq_ok h⟩

theorem on_onProject {α : Type} {m : ConfigM α} (h : Keeps R m w.project) : Keeps (Workspace.On R) (onProject m) w := by
  cases hm : m w.project with
  | ok a p => exact .of_eq_ok (onProject_ok hm) (h.of_ok hm)
  | error e p => exact .of_eq_error (onProject_error hm) (h.of_error hm)

/-- An operation on the project leaves the project it leaves there, whatever is made of its result. -/
theorem project_after_onProject {α β : Type} (m : ConfigM α) (f : α → β) (w : Workspace) :
    (after (do return f (← onProject m)) w).project = after m w.project := by
  cases hm : m w.project with
  | ok a p =>
    rw [after_bind_of_ok (onProject_ok hm), after_of_ok hm]
    rfl
  | error e p =>
    rw [after_of_error (bind_of_error (onProject_error hm)), after_of_error hm]

section

variable (hR : Frame R)

include hR

theorem on_ask {α : Type} (f : Project → α) : Keeps (Workspace.On R) (ask f) w := hR.refl _

theorem on_require {α : Type} (f : Project → Except ConfigError α) : Keeps (Workspace.On R) (require f) w := by
  refine on_onProject (.get_bind ?_)
  cases f w.project with
  | ok a => exact .of_pure hR _ _
  | error e => exact .of_throw hR _ _

theorem on_valueId (name : String) : Keeps (Workspace.On R) (valueId name) w := hR.refl _

theorem on_propertyId (name : String) : Keeps (Workspace.On R) (propertyId name) w := hR.refl _

theorem on_nameValue (name : String) (id : ProviderId) : Keeps (Workspace.On R) (nameValue name id) w := hR.refl _

theorem on_countRuns (name : String) (id : ProviderId) : Keeps (Workspace.On R) (countRuns name id) w := hR.refl _

theorem on_runsOf (name : String) : Keeps (Workspace.On R) (runsOf name) w := hR.refl _

theorem on_nameProperty (name : String) (id : PropertyId) : Keeps (Workspace.On R) (nameProperty name id) w := hR.refl _

theorem on_changeClasspath {sourceSet : String} {which : ClasspathKind} {f : FileCollection → FileCollection}
    (h : Keeps R (ConfigM.onSourceSets (·.update sourceSet (·.updateClasspath f which))) w.project) :
    Keeps (Workspace.On R) (changeClasspath sourceSet which f) w := by
  have hF := Workspace.on_frame hR
  exact .bind hF (on_onProject h) fun _ _ _ => .andReturn hF (on_require hR _)

end

/-- What the project is required to have is as the project has it. -/
theorem require_eq_ok {α : Type} {f : Project → Except ConfigError α} {a : α} {v : Workspace}
    (h : require f w = .ok a v) : f w.project = .ok a ∧ v = w := by
  unfold require onProject at h
  rw [bind_apply, get_apply] at h
  cases hf : f w.project with
  | ok b =>
    simp only [hf, ConfigM.ofExcept, pure_apply] at h
    cases h
    exact ⟨rfl, rfl⟩
  | error e =>
    simp only [hf, ConfigM.ofExcept, throw_apply] at h
    cases h

theorem require_error {α : Type} {f : Project → Except ConfigError α} {e : ConfigError} (h : f w.project = .error e) :
    require f w = .error e w := by
  unfold require onProject
  rw [bind_apply, get_apply]
  simp only [h, ConfigM.ofExcept, throw_apply]

end ScriptM

def SourceSetAction.replacesClasspath : SourceSetAction → Bool
  | .setClasspath _ _ _ => true
  | _ => false

/-- Whether an action puts another classpath in the place of that of a source set. -/
def Action.replacesClasspath : Action → Bool
  | .sourceSet a => a.replacesClasspath
  | _ => false

/-- The change to a configuration as an edit. -/
def ConfigurationChange.edit (change : ConfigurationChange) : Configurations.Edit :=
  ⟨change.apply, fun _ => rfl, fun _ => rfl⟩

/-- What is left to show of an action that creates source sets or tasks, or puts another classpath in the place of
    one. -/
def Action.CreationKeeps (R : Project → Project → Prop) : Action → Prop
  | .sourceSet (.create name) => ∀ p, Keeps R (ConfigM.createSourceSet name) p
  | .sourceSet (.insert name) => ∀ p, Keeps R (ConfigM.onSourceSets (·.insert (.conventional name))) p
  | .sourceSet (.derive name _) => ∀ p, Keeps R (ConfigM.createSourceSet name) p
  | .sourceSet (.setClasspath name which files) =>
    ∀ p, Keeps R (ConfigM.onSourceSets (·.update name (·.updateClasspath (fun _ => files) which))) p
  | .task (.register name setup) => ∀ cs p, Keeps R (ConfigM.registerTask name (.blank setup.kind) cs) p
  | .processing .javaConventions =>
    (∀ p, Keeps R (ConfigM.createSourceSet SourceSetName.main) p) ∧
      ∀ p, Keeps R (ConfigM.createSourceSet SourceSetName.test) p
  | .processing (.mainClassTask _) =>
    ∀ cs p, Keeps R (ConfigM.registerTask ConfigM.mainClassTask (.blank .resolveMainClassName) cs) p
  | .processing (.wire kind derived input classpath _) =>
    ∀ outputs p, Keeps R (ConfigM.wireProcessingTask kind derived input classpath outputs) p
  | _ => True

/-- What is left to show of an action that creates something, changes configurations, or puts another classpath in the
    place of that of a source set. -/
def Action.ChangesKeep (R : Project → Project → Prop) : Action → Prop
  | .sourceSet (.create name) => ∀ p, Keeps R (ConfigM.createSourceSet name) p
  | .sourceSet (.insert name) => ∀ p, Keeps R (ConfigM.onSourceSets (·.insert (.conventional name))) p
  | .sourceSet (.derive name existing) => ∀ p, Keeps R (ConfigM.deriveSourceSet name existing) p
  | .sourceSet (.setClasspath name which files) =>
    ∀ p, Keeps R (ConfigM.onSourceSets (·.update name (·.updateClasspath (fun _ => files) which))) p
  | .configuration (.create name setup) => ∀ p, Keeps R (ConfigM.createConfiguration name setup) p
  | .configuration (.configure name change) => ∀ p, Keeps R (ConfigM.onConfigurations (·.update name change.apply)) p
  | .configuration (.extend child parent) => ∀ p, Keeps R (ConfigM.extendConfiguration child parent) p
  | .configuration (.addDependency name d) => ∀ p, Keeps R (ConfigM.addDependency name d) p
  | .configuration (.copyAttributes _ target) => ∀ (source : AttributeSet) p, Keeps R (ConfigM.onConfigurations
      (·.update target fun c => { c with attributes := source.copyTo c.attributes })) p
  | .task (.register name setup) => ∀ cs p, Keeps R (ConfigM.registerTask name (.blank setup.kind) cs) p
  | .processing .javaConventions => ∀ p, Keeps R ConfigM.applyJavaConventions p
  | .processing (.mainClassTask _) =>
    ∀ cs p, Keeps R (ConfigM.registerTask ConfigM.mainClassTask (.blank .resolveMainClassName) cs) p
  | .processing (.createClasspath name input) => ∀ p, Keeps R (ConfigM.createProcessingClasspath name input) p
  | .processing (.wire kind derived input classpath _) =>
    ∀ outputs p, Keeps R (ConfigM.wireProcessingTask kind derived input classpath outputs) p
  | _ => True

def TaskAction.computes : TaskAction → Bool
  | .configure .. | .realize .. | .missingInput .. | .evaluate .. | .finalize | .position .. => true
  | _ => false

def ValueAction.computes : ValueAction → Bool
  | .get .. => true
  | _ => false

/-- Whether an action may realize tasks or compute lazy values. -/
def Action.computes : Action → Bool
  | .task a => a.computes
  | .value a => a.computes
  | _ => false

/-- What is left to show of an action that configures a task. -/
def Action.ConfiguringKeeps (R : Project → Project → Prop) : Action → Prop
  | .task (.configure name _) => ∀ cs p, Keeps R (ConfigM.configure name cs) p
  | _ => True

/-! ## Adding lazy values -/

namespace Supplying

open ScriptM

variable {R : Project → Project → Prop} {w : Workspace}

theorem addValue (hR : Supplying R) {cell : Provider} (hcell : cell.runs = 0) :
    Keeps (Workspace.On R) (ScriptM.addValue cell) w := by
  have hF := Workspace.on_frame hR.toFrame
  unfold ScriptM.addValue
  refine .bind hF (on_ask hR.toFrame _) ?_
  intro id v _
  exact .andReturn hF (on_onProject (.of_modify (hR.supply v.project (List.forall_mem_singleton.mpr hcell))))

theorem newValue (hR : Supplying R) (name : String) (thunk : Thunk) :
    Keeps (Workspace.On R) (ScriptM.newValue name thunk) w := by
  have hF := Workspace.on_frame hR.toFrame
  unfold ScriptM.newValue
  refine .bind hF (hR.addValue rfl) fun _ _ _ => ?_
  exact .andReturn hF (on_nameValue hR.toFrame _ _)

theorem registerMainClassTask (hR : Supplying R)
    (hregister : ∀ cs p, Keeps R (ConfigM.registerTask ConfigM.mainClassTask (.blank .resolveMainClassName) cs) p)
    (mainClass : Option String) (p : Project) : Keeps R (ConfigM.registerMainClassTask mainClass) p := by
  unfold ConfigM.registerMainClassTask
  refine .get_bind (.bind hR.toFrame (hregister _ _) ?_)
  intro _ q _
  refine .of_modify (hR.supply q fun c hc => ?_)
  obtain ⟨value, -, rfl⟩ := List.mem_map.mp hc
  rfl

theorem lazyId (hR : Supplying R) (text : Option LazyText) : Keeps (Workspace.On R) (ScriptM.lazyId text) w := by
  have hF := Workspace.on_frame hR.toFrame
  cases text with
  | none => exact .of_pure hF _ w
  | some text =>
    cases text with
    | of value => exact .andReturn hF (hR.addValue rfl)
    | named name => exact .andReturn hF (on_valueId hR.toFrame name)

theorem mainClassChange (hR : Supplying R) (f : MainClassField) : Keeps (Workspace.On R) (ScriptM.mainClassChange f) w := by
  cases f with
  | configuredMainClass value => exact .andReturn (Workspace.on_frame hR.toFrame) (hR.lazyId value)
  | outputFile file => exact .of_pure (Workspace.on_frame hR.toFrame) _ w

theorem specChange (hR : Supplying R) (f : ProcessingField) : Keeps (Workspace.On R) (ScriptM.specChange f) w := by
  have hF := Workspace.on_frame hR.toFrame
  cases f with
  | groupId value => exact .andReturn hF (hR.lazyId value)
  | artifactId value => exact .andReturn hF (hR.lazyId value)
  | _ => exact .of_pure hF _ w

theorem processAotChange (hR : Supplying R) (f : ProcessAotField) : Keeps (Workspace.On R) (ScriptM.processAotChange f) w := by
  cases f with
  | spec field => exact .andReturn (Workspace.on_frame hR.toFrame) (hR.specChange field)
  | applicationClass value => exact .andReturn (Workspace.on_frame hR.toFrame) (hR.lazyId value)

theorem processTestAotChange (hR : Supplying R) (f : ProcessTestAotField) :
    Keeps (Workspace.On R) (ScriptM.processTestAotChange f) w := by
  cases f with
  | spec field => exact .andReturn (Workspace.on_frame hR.toFrame) (hR.specChange field)
  | testRuntimeClasspath name => exact .of_pure (Workspace.on_frame hR.toFrame) _ w

theorem customConfigurator (hR : Supplying R) (type : CustomType) (f : CustomField) :
    Keeps (Workspace.On R) (ScriptM.customConfigurator type f) w := by
  have hF := Workspace.on_frame hR.toFrame
  cases f with
  | logProperty name => exact .andReturn hF (on_propertyId hR.toFrame name)
  | logProvider name => exact .andReturn hF (on_valueId hR.toFrame name)
  | _ => exact .of_pure hF _ w

theorem configurators (hR : Supplying R) (setup : TaskSetup) : Keeps (Workspace.On R) (ScriptM.configurators setup) w := by
  have hF := Workspace.on_frame hR.toFrame
  cases setup with
  | resolveMainClassName fields => exact .mapM hF _ (fun f _ => .andReturn hF (hR.mainClassChange f)) w
  | processAot fields => exact .mapM hF _ (fun f _ => .andReturn hF (hR.processAotChange f)) w
  | processTestAot fields => exact .mapM hF _ (fun f _ => .andReturn hF (hR.processTestAotChange f)) w
  | custom type fields => exact .mapM hF _ (fun f _ => hR.customConfigurator type f) w
  | _ => exact .of_pure hF _ w

/-- Configuring a task adds the lazy values that come with what is submitted to it. -/
theorem configureTask (hR : Supplying R) {name : String} (setup : TaskSetup)
    (hconfigure : ∀ cs p, Keeps R (ConfigM.configure name cs) p) :
    Keeps (Workspace.On R) (ScriptM.runTask (.configure name setup)) w := by
  have hF := Workspace.on_frame hR.toFrame
  refine .bind hF (on_require hR.toFrame _) fun _ _ _ => ?_
  refine .bind hF (hR.configurators setup) ?_
  intro cs _ _
  refine .bind hF (on_onProject (hconfigure cs _)) fun _ _ _ => ?_
  exact .andReturn hF (on_require hR.toFrame _)

end Supplying

/-! ## Actions that compute nothing -/

namespace Editing

open ScriptM

variable {R : Project → Project → Prop} {w : Workspace}

theorem runProject (hR : Editing R) (a : ProjectAction) : Keeps (Workspace.On R) (ScriptM.runProject a) w := by
  have hF := Workspace.on_frame hR.toFrame
  cases a with
  | dump => exact .andReturn hF (on_ask hR.toFrame _)
  | state => exact .andReturn hF (on_ask hR.toFrame _)
  | setGroup value =>
    refine .andReturn hF (on_onProject (.of_modify ?_))
    exact hR.values w.project value w.project.layout.buildDir w.project.properties
  | setBuildDir value =>
    refine .andReturn hF (on_onProject (.of_modify ?_))
    exact hR.values w.project w.project.group ⟨value⟩ w.project.properties
  | resolveFiles files => exact .andReturn hF (on_require hR.toFrame _)
  | resolve location => exact .andReturn hF (on_ask hR.toFrame _)
  | buildDirLocation path => exact .of_pure hF _ w
  | files steps => exact .of_pure hF _ w

theorem runSourceSet (hR : Editing R) (a : SourceSetAction) (ha : (Action.sourceSet a).ChangesKeep R) :
    Keeps (Workspace.On R) (ScriptM.runSourceSet a) w := by
  have hF := Workspace.on_frame hR.toFrame
  cases a with
  | create name => exact .andReturn hF (on_onProject (ha _))
  | insert name => exact .andReturn hF (on_onProject (ha _))
  | derive name existing => exact .andReturn hF (on_onProject (ha _))
  | get name => exact .andReturn hF (on_require hR.toFrame _)
  | names => exact .andReturn hF (on_ask hR.toFrame _)
  | has name => exact .andReturn hF (on_ask hR.toFrame _)
  | setDirs sourceSet which dirs =>
    refine .andReturn hF (on_onProject (hR.reshape _ (fun s => ?_) fun s => ?_))
    · cases which <;> rfl
    · cases which <;> exact .of_eq rfl rfl
  | setOutput sourceSet output =>
    exact .andReturn hF (on_onProject (hR.reshape _ (fun _ => rfl) fun _ => .of_eq rfl rfl))
  | setClasspath sourceSet which files => exact on_changeClasspath hR.toFrame (ha _)
  | addClasspath sourceSet which files =>
    refine on_changeClasspath hR.toFrame (hR.reshape _ (SourceSet.name_updateClasspath _ which) fun s => ?_)
    exact s.widens_updateClasspath (fun _ _ h => FileCollection.contains_plus_left h files) which
  | resolveClasspath sourceSet which =>
    exact .bind hF (on_require hR.toFrame _) fun _ _ _ => .andReturn hF (on_require hR.toFrame _)

theorem runConfiguration (hR : Editing R) (a : ConfigurationAction) (ha : (Action.configuration a).ChangesKeep R) :
    Keeps (Workspace.On R) (ScriptM.runConfiguration a) w := by
  have hF := Workspace.on_frame hR.toFrame
  cases a with
  | create name setup => exact .andReturn hF (on_onProject (ha _))
  | get name => exact .bind hF (on_require hR.toFrame _) fun _ _ _ => .andReturn hF (on_ask hR.toFrame _)
  | names => exact .andReturn hF (on_ask hR.toFrame _)
  | has name => exact .andReturn hF (on_ask hR.toFrame _)
  | configure name change => exact .andReturn hF (on_onProject (ha _))
  | extend child parent => exact .andReturn hF (on_onProject (ha _))
  | extendsOf name => exact .andReturn hF (on_require hR.toFrame _)
  | hierarchy name => exact .andReturn hF (on_require hR.toFrame _)
  | addDependency configuration dependency =>
    refine .bind hF (on_onProject (ha _)) fun _ _ _ => ?_
    exact .andReturn hF (on_ask hR.toFrame _)
  | dependencyClosure name => exact .andReturn hF (on_require hR.toFrame _)
  | checkCompatible configuration candidate =>
    refine .bind hF (on_require hR.toFrame _) fun _ _ _ => ?_
    refine .bind hF (on_require hR.toFrame _) fun _ _ _ => ?_
    exact .andReturn hF (on_require hR.toFrame _)
  | copyAttributes source target =>
    refine .bind hF (on_require hR.toFrame _) ?_
    intro s _ _
    exact .andReturn hF (on_onProject (ha s.attributes _))
  | diagram => exact .andReturn hF (on_ask hR.toFrame _)

theorem runTask (hR : Editing R) (a : TaskAction) (hc : a.computes = false) (ha : (Action.task a).ChangesKeep R) :
    Keeps (Workspace.On R) (ScriptM.runTask a) w := by
  have hE := hR.toFrame
  have hF := Workspace.on_frame hE
  cases a with
  | register name setup =>
    refine .bind hF (on_ask hE _) ?_
    intro taken v _
    have hrest : Keeps (Workspace.On R) (do
        let cs ← ScriptM.configurators setup
        onProject (ConfigM.registerTask name (.blank setup.kind) cs)
        return Answer.registered name (← require (·.tasks.isRealized name))) v := by
      refine .bind hF (hR.toSupplying.configurators setup) ?_
      intro cs _ _
      refine .bind hF (on_onProject (ha _ _)) fun _ _ _ => ?_
      exact .andReturn hF (on_require hE _)
    cases taken with
    | true => exact .bind hF (.of_throw hF _ _) fun _ _ h => by cases h
    | false => exact hrest
  | handle kind name =>
    exact .bind hF (on_require hE _) fun _ _ _ => .andReturn hF (on_require hE _)
  | has name => exact .andReturn hF (on_ask hE _)
  | get name => exact .andReturn hF (on_require hE _)
  | names => exact .andReturn hF (on_ask hE _)
  | isRealized name => exact .andReturn hF (on_require hE _)
  | dependsOn dependent dependency =>
    refine .bind hF (on_require hE _) ?_
    intro t v ht
    obtain ⟨ht, rfl⟩ := require_eq_ok ht
    refine .bind hF (on_require hE _) ?_
    intro u v hu
    obtain ⟨hu, rfl⟩ := require_eq_ok hu
    refine .andReturn hF (on_onProject (hR.dependsOn ?_ ?_))
    · exact (ConfigM.name_of_get ht).symm ▸ ConfigM.mem_of_get ht
    · exact (ConfigM.name_of_get hu).symm ▸ ConfigM.mem_of_get hu
  | dependenciesOf name => exact .andReturn hF (on_require hE _)
  | diagram => exact .andReturn hF (on_ask hE _)
  | _ => cases hc

theorem runValue (hR : Editing R) (a : ValueAction) (hc : a.computes = false) :
    Keeps (Workspace.On R) (ScriptM.runValue a) w := by
  have hE := hR.toFrame
  have hF := Workspace.on_frame hE
  have hS := hR.toSupplying
  cases a with
  | of name value => exact .bind hF (hS.addValue rfl) fun _ _ _ => .andReturn hF (on_nameValue hE _ _)
  | counting name value =>
    refine .bind hF (hS.addValue rfl) fun _ _ _ => .bind hF (on_nameValue hE _ _) fun _ _ _ => ?_
    exact .andReturn hF (on_countRuns hE _ _)
  | runs name => exact .andReturn hF (on_runsOf hE _)
  | map name source append => exact .bind hF (on_valueId hE _) fun _ _ _ => hS.newValue _ _
  | «alias» name source => exact .bind hF (on_valueId hE _) fun _ _ _ => .andReturn hF (on_nameValue hE _ _)
  | ofProperty name property => exact .bind hF (on_propertyId hE _) fun _ _ _ => hS.newValue _ _
  | group name => exact hS.newValue _ _
  | location name location => exact hS.newValue _ _
  | fromTask name reading task => exact .bind hF (on_require hE _) fun _ _ _ => hS.newValue _ _
  | get name => cases hc
  | isResolved name => exact .bind hF (on_valueId hE _) fun _ _ _ => .andReturn hF (on_ask hE _)
  | inspect name => exact .bind hF (on_valueId hE _) fun _ _ _ => .andReturn hF (on_ask hE _)

theorem updateProperty (hR : Editing R) (id : PropertyId) (f : String → String) :
    Keeps (Workspace.On R) (onProject (modify (·.updateProperty id f))) w :=
  on_onProject (.of_modify (hR.values w.project w.project.group w.project.layout.buildDir _))

theorem runProperty (hR : Editing R) (a : PropertyAction) : Keeps (Workspace.On R) (ScriptM.runProperty a) w := by
  have hE := hR.toFrame
  have hF := Workspace.on_frame hE
  cases a with
  | new name value =>
    refine .bind hF (on_ask hE _) fun _ v _ => .bind hF (on_onProject (.of_modify ?_)) fun _ _ _ => ?_
    · exact hR.values v.project v.project.group v.project.layout.buildDir _
    · exact .andReturn hF (on_nameProperty hE _ _)
  | «alias» name source => exact .bind hF (on_propertyId hE _) fun _ _ _ => .andReturn hF (on_nameProperty hE _ _)
  | set name value => exact .bind hF (on_propertyId hE _) fun _ _ _ => .andReturn hF (hR.updateProperty _ _)
  | append name text => exact .bind hF (on_propertyId hE _) fun _ _ _ => .andReturn hF (hR.updateProperty _ _)
  | get name => exact .bind hF (on_propertyId hE _) fun _ _ _ => .andReturn hF (on_ask hE _)
  | inspect name => exact .bind hF (on_propertyId hE _) fun _ _ _ => .andReturn hF (on_ask hE _)

theorem runProcessing (hR : Editing R) (a : ProcessingAction) (ha : (Action.processing a).ChangesKeep R) :
    Keeps (Workspace.On R) (ScriptM.runProcessing a) w := by
  have hE := hR.toFrame
  have hF := Workspace.on_frame hE
  cases a with
  | javaConventions => exact .andReturn hF (on_onProject (ha _))
  | mainClassTask mainClass => exact .andReturn hF (on_onProject (hR.toSupplying.registerMainClassTask ha mainClass _))
  | createClasspath task sourceSet => exact .andReturn hF (on_onProject (ha _))
  | outputsFor task derived => exact .andReturn hF (on_require hE _)
  | wire kind derived input classpath outputs =>
    have hwire : ∀ o v, Keeps (Workspace.On R)
        (do return Answer.text (← onProject (ConfigM.wireProcessingTask kind derived input classpath o))) v :=
      fun o v => .andReturn hF (on_onProject (ha _ _))
    cases outputs with
    | some o => exact hwire o w
    | none => exact .bind hF (on_require hE _) fun o v _ => hwire o v

end Editing

/-- An action that computes nothing keeps such a relation, if what it creates and what becomes of configurations does. -/
theorem Action.run_edits {R : Project → Project → Prop} (hR : Editing R) (plugins : Plugins) {a : Action}
    (hc : a.computes = false) (ha : a.ChangesKeep R) (w : Workspace) : Keeps (Workspace.On R) (a.run plugins) w := by
  cases a with
  | project a => exact hR.runProject a
  | sourceSet a => exact hR.runSourceSet a ha
  | configuration a => exact hR.runConfiguration a ha
  | task a => exact hR.runTask a hc ha
  | value a => exact hR.runValue a hc
  | property a => exact hR.runProperty a
  | processing a => exact hR.runProcessing a ha
  | plugin id => exact .of_pure (Workspace.on_frame hR.toFrame) _ w

/-! ## Actions that compute -/

namespace Computing

open ScriptM

variable {R : Project → Project → Prop} {w : Workspace}

theorem realizeTask (hR : Computing R) (name : String) :
    Keeps (Workspace.On R) (onProject (ConfigM.realize name)) w :=
  on_onProject (hR.toEvaluating.realize name _)

theorem evaluateValue (hR : Computing R) (id : ProviderId) :
    Keeps (Workspace.On R) (onProject (ConfigM.evaluate id)) w :=
  on_onProject (hR.toEvaluating.evaluate id _)

theorem finalizeProject (hR : Computing R) : Keeps (Workspace.On R) (onProject ConfigM.finalize) w :=
  on_onProject (hR.toEvaluating.finalize _)

theorem runTask (hR : Computing R) (a : TaskAction) (hc : a.computes = true)
    (ha : (Action.task a).ConfiguringKeeps R) : Keeps (Workspace.On R) (ScriptM.runTask a) w := by
  have hE := hR.toFrame
  have hF := Workspace.on_frame hE
  cases a with
  | configure name setup => exact hR.toSupplying.configureTask setup ha
  | realize kind name =>
    refine .bind hF (on_require hE _) fun _ _ _ => .bind hF (hR.realizeTask name) fun b _ _ => ?_
    exact .andReturn hF (on_ask hE _)
  | missingInput kind name =>
    exact .bind hF (on_require hE _) fun _ _ _ => .andReturn hF (hR.realizeTask name)
  | evaluate kind name field =>
    refine .bind hF (on_require hE _) fun _ _ _ => .bind hF (hR.realizeTask name) fun b v _ => ?_
    cases b.lazyField? field with
    | none => exact .of_pure hF _ v
    | some reading =>
      cases reading with
      | text value => exact .of_pure hF _ v
      | provider id => exact .andReturn hF (hR.evaluateValue id)
  | finalize => exact .andReturn hF hR.finalizeProject
  | position name => exact .andReturn hF hR.finalizeProject
  | _ => cases hc

theorem runValue (hR : Computing R) (a : ValueAction) (hc : a.computes = true) :
    Keeps (Workspace.On R) (ScriptM.runValue a) w := by
  have hF := Workspace.on_frame hR.toFrame
  cases a with
  | get name => exact .bind hF (on_valueId hR.toFrame _) fun id _ _ => .andReturn hF (hR.evaluateValue id)
  | _ => cases hc

end Computing

/-- An action that computes keeps such a relation, if it does not configure a task or doing so keeps it. -/
theorem Action.run_computes {R : Project → Project → Prop} (hR : Computing R) (plugins : Plugins) {a : Action}
    (hc : a.computes = true) (ha : a.ConfiguringKeeps R) (w : Workspace) :
    Keeps (Workspace.On R) (a.run plugins) w := by
  cases a with
  | task a => exact hR.runTask a hc ha
  | value a => exact hR.runValue a hc
  | _ => cases hc

/-! ## All actions -/

theorem Handling.computing {R : Project → Project → Prop} (hR : Handling R) : Computing R where
  toEvaluating := hR.evaluating
  supply := hR.supply

theorem Handling.configuringKeeps {R : Project → Project → Prop} (hR : Handling R) (a : Action) :
    a.ConfiguringKeeps R := by
  unfold Action.ConfiguringKeeps
  split
  · exact hR.configure hR.wait _
  · trivial

/-- Whatever an action does, it keeps such a relation, if what it creates and what becomes of configurations does. -/
theorem Action.run_handles {R : Project → Project → Prop} (hR : Handling R) (plugins : Plugins) (a : Action)
    (ha : a.ChangesKeep R) (w : Workspace) : Keeps (Workspace.On R) (a.run plugins) w := by
  cases hc : a.computes with
  | false => exact a.run_edits hR.toEditing plugins hc ha w
  | true => exact a.run_computes hR.computing plugins hc (hR.configuringKeeps a) w

theorem Adjusting.changesKeep {R : Project → Project → Prop} (hR : Adjusting R) {a : Action} (ha : a.CreationKeeps R) :
    a.ChangesKeep R := by
  cases a with
  | sourceSet a =>
    cases a with
    | derive name existing => exact hR.deriveSourceSet ha existing
    | _ => exact ha
  | configuration a =>
    cases a with
    | create name setup => exact hR.createConfiguration name setup
    | configure name change => exact hR.editConfiguration name (ConfigurationChange.edit change)
    | extend child parent => exact hR.extendConfiguration child parent
    | addDependency name d => exact hR.addDependency name d
    | copyAttributes source target => exact fun s => hR.editConfiguration target (.attributes s.copyTo)
    | _ => trivial
  | processing a =>
    cases a with
    | javaConventions => exact hR.applyJavaConventions ha.1 ha.2
    | createClasspath task sourceSet => exact hR.createProcessingClasspath task sourceSet
    | _ => exact ha
  | task a =>
    cases a with
    | register name setup => exact ha
    | _ => trivial
  | _ => trivial

/-- Whatever an action does, it keeps such a relation, if what it creates does. -/
theorem Action.run_tends {R : Project → Project → Prop} (hR : Tending R) (plugins : Plugins) (a : Action)
    (ha : a.CreationKeeps R) (w : Workspace) : Keeps (Workspace.On R) (a.run plugins) w :=
  a.run_handles hR.toHandling plugins (hR.toAdjusting.changesKeep ha) w

theorem Creating.creationKeeps {R : Project → Project → Prop} (hR : Creating R) {a : Action}
    (ha : a.replacesClasspath = false) : a.CreationKeeps R := by
  cases a with
  | sourceSet a =>
    cases a with
    | create name => exact hR.createSourceSet name
    | insert name => exact hR.insert name
    | derive name existing => exact hR.createSourceSet name
    | setClasspath sourceSet which files => cases ha
    | _ => trivial
  | task a =>
    cases a with
    | register name setup => exact hR.registerTask name _
    | _ => trivial
  | processing a =>
    cases a with
    | javaConventions => exact ⟨hR.createSourceSet _, hR.createSourceSet _⟩
    | mainClassTask mainClass => exact hR.registerTask _ _
    | wire kind derived input classpath outputs => exact hR.wireProcessingTask kind derived input classpath
    | _ => trivial
  | _ => trivial

/-- Creating keeps such a relation in any case if replacing a classpath does. -/
theorem Creating.creationKeeps_of_setClasspath {R : Project → Project → Prop} (hR : Creating R)
    (hset : ∀ name which files p,
      Keeps R (ConfigM.onSourceSets (·.update name (·.updateClasspath (fun _ => files) which))) p)
    (a : Action) : a.CreationKeeps R := by
  by_cases ha : a.replacesClasspath = false
  · exact hR.creationKeeps ha
  · cases a with
    | sourceSet a =>
      cases a with
      | setClasspath name which files => exact hset name which files
      | _ => exact absurd rfl ha
    | _ => exact absurd rfl ha

/-- Whatever an action does, it keeps such a relation, unless it replaces a classpath. -/
theorem Action.run_keeps {R : Project → Project → Prop} (hR : Acting R) (plugins : Plugins) (a : Action)
    (ha : a.replacesClasspath = false) (w : Workspace) : Keeps (Workspace.On R) (a.run plugins) w :=
  a.run_tends hR.toTending plugins (hR.toCreating.creationKeeps ha) w

end BuildGraph

/-
  BuildGraph.Proofs.Project.Snapshot: what a configuration extends and its attributes, and what leaves them alone.

  A processing classpath copies what the runtime classpath extends and its attributes. The copy is made once, so
  from then on only what is done to the classpath itself changes it. `Presents` is what is copied. It stays when other
  configurations are created, extended or edited. Where a plugin extends or edits a configuration of a source set that
  it creates in the same go, that one is new and so not the classpath.

  - `createProcessingClasspath_presents`: the copy, and the hierarchies of the two classpaths.
  - `preserves_createSourceSet` / `preserves_deriveSourceSet` / `preserves_wireProcessingTask`: the operations that leave
    a configuration as it is, but for the compile classpath that is being wired.
-/

import BuildGraph.Proofs.Project.ProcessingClasspath

namespace BuildGraph

open Operation Project SourceSetName

/-! ## What is copied -/

namespace Configurations

variable {r s : Configurations} {name other child parent : String} {parents : List String} {attributes : AttributeSet}

/-- The configuration `name` extends `parents`, in this order, and has these attributes. -/
structure Presents (r : Configurations) (name : String) (parents : List String) (attributes : AttributeSet) : Prop where
  extendsOf : r.extendsOf name = .ok parents
  attributes : (r.find? name).map (·.attributes) = some attributes

theorem presents_iff : r.Presents name parents attributes ↔
    ∃ c, r.entryOf? name = some (.configuration c parents) ∧ c.attributes = attributes := by
  constructor
  · rintro ⟨hextends, hattributes⟩
    obtain ⟨c, hc, hca⟩ := Option.map_eq_some_iff.mp hattributes
    refine ⟨c, ?_, hca⟩
    rw [entryOf?, hc, extendsOf_eq_ok hextends]
    rfl
  · rintro ⟨c, he, hca⟩
    obtain ⟨d, hd, hentry⟩ := Option.map_eq_some_iff.mp he
    cases hentry
    exact ⟨if_pos (contains_iff.mpr (exists_find?_iff.mp ⟨c, hd⟩)), by rw [hd, ← hca]; rfl⟩

namespace Presents

theorem mem (h : r.Presents name parents attributes) : name ∈ r.names := by
  obtain ⟨c, hc, -⟩ := Option.map_eq_some_iff.mp h.attributes
  exact exists_find?_iff.mp ⟨c, hc⟩

theorem of_entryOf?_eq (h : r.Presents name parents attributes) (he : s.entryOf? name = r.entryOf? name) :
    s.Presents name parents attributes := by
  rw [presents_iff, he]
  exact presents_iff.mp h

/-- What is declared next is another configuration. -/
theorem declare (h : r.Presents name parents attributes) (hd : r.declare other = .ok s) :
    s.Presents name parents attributes := by
  obtain ⟨c, hc, -⟩ := Option.map_eq_some_iff.mp h.attributes
  refine h.of_entryOf?_eq ?_
  rw [entryOf?, entryOf?, find?_of_declare hd hc, hc]
  obtain ⟨-, rfl⟩ := declare_eq_ok hd
  rfl

theorem extend (h : r.Presents name parents attributes) (hne : child ≠ name) (he : r.extend child parent = .ok s) :
    s.Presents name parents attributes :=
  h.of_entryOf?_eq ((entryOf?_extend he name).trans (if_neg (Ne.symm hne)))

/-- A change to another configuration, or to something else about this one. -/
theorem updateAll {f : Configuration → Configuration} (h : r.Presents name parents attributes)
    (hname : ∀ c, (f c).name = c.name) (hf : other = name → ∀ c, (f c).attributes = c.attributes) :
    (r.updateAll other f).Presents name parents attributes := by
  by_cases hne : name = other
  · obtain ⟨c, hc, hca⟩ := presents_iff.mp h
    refine presents_iff.mpr ⟨f c, ?_, (hf hne.symm c).trans hca⟩
    rw [entryOf?_updateAll hname, if_pos hne, hc]
    rfl
  · exact h.of_entryOf?_eq ((entryOf?_updateAll hname name).trans (if_neg hne))

theorem runSetup (h : r.Presents name parents attributes) (hne : other ≠ name) (setup : List Setup) :
    (Configurations.runSetup other setup r).2.Presents name parents attributes := by
  induction setup generalizing r with
  | nil => exact h
  | cons i rest ih =>
    rw [Configurations.runSetup]
    cases hi : i.run other r with
    | error e => exact h
    | ok t => exact ih (h.of_entryOf?_eq ((entryOf?_setUp hi name).trans (if_neg (Ne.symm hne))))

theorem create (h : r.Presents name parents attributes) (other : String) (setup : List Setup) :
    (r.create other setup).2.Presents name parents attributes := by
  unfold Configurations.create
  cases hd : r.declare other with
  | error e => exact h
  | ok s =>
    have hne : other ≠ name := fun he => (declare_eq_ok hd).1 (he ▸ h.mem)
    exact (h.declare hd).runSetup hne setup

end Presents

end Configurations

namespace Project

variable {p q : Project} {name : String} {parents : List String} {attributes : AttributeSet}

/-- The project has the configuration `name`, which extends `parents` and has these attributes. -/
def Presents (name : String) (parents : List String) (attributes : AttributeSet) (p : Project) : Prop :=
  p.configurations.Presents name parents attributes

/-! ## What leaves it alone -/

section

variable (name parents attributes)

/-- What was presented is presented still. -/
abbrev Presenting : Project → Project → Prop := Preserves (Presents name parents attributes)

variable {name parents attributes}

theorem presenting_frame : Frame (Presenting name parents attributes) := preserves_frame _

/-- Only the configurations matter. -/
theorem Presenting.of_eq (h : q.configurations = p.configurations) : Presenting name parents attributes p q := fun hp => by
  rw [Presents, h]
  exact hp

theorem preserves_onSourceSets (f : SourceSets → Except ConfigError SourceSets) (p : Project) :
    Keeps (Presenting name parents attributes) (ConfigM.onSourceSets f) p :=
  ConfigM.keeps_onSourceSets presenting_frame fun _ _ => .of_eq rfl

theorem preserves_onTasks (f : Tasks → Except ConfigError Tasks) (p : Project) :
    Keeps (Presenting name parents attributes) (ConfigM.onTasks f) p :=
  ConfigM.keeps_onTasks presenting_frame fun _ _ => .of_eq rfl

theorem preserves_createConfiguration (other : String) (setup : List Configurations.Setup) (p : Project) :
    Keeps (Presenting name parents attributes) (ConfigM.createConfiguration other setup) p := by
  intro hp
  rw [ConfigM.after_createConfiguration]
  exact Configurations.Presents.create hp other setup

theorem preserves_extendConfiguration {child : String} (hne : child ≠ name) (parent : String) (p : Project) :
    Keeps (Presenting name parents attributes) (ConfigM.extendConfiguration child parent) p :=
  ConfigM.keeps_onConfigurations presenting_frame fun _ hr hp => Configurations.Presents.extend hp hne hr

theorem preserves_updateConfiguration {other : String} {f : Configuration → Configuration}
    (hname : ∀ c, (f c).name = c.name) (hf : other = name → ∀ c, (f c).attributes = c.attributes) (p : Project) :
    Keeps (Presenting name parents attributes) (ConfigM.onConfigurations (·.update other f)) p := by
  refine ConfigM.keeps_onConfigurations presenting_frame fun r hr hp => ?_
  rw [Configurations.update_eq_ok hr]
  exact Configurations.Presents.updateAll hp hname hf

theorem preserves_addDependency (other : String) (d : Dependency) (p : Project) :
    Keeps (Presenting name parents attributes) (ConfigM.addDependency other d) p :=
  preserves_updateConfiguration (f := fun c => { c with dependencies := Distinct.add c.dependencies d }) (fun _ => rfl)
    (fun _ _ => rfl) p

theorem preserves_registerSourceSetTasks (other : String) (u : UnitId) (p : Project) :
    Keeps (Presenting name parents attributes) (ConfigM.registerSourceSetTasks other u) p :=
  (ConfigM.tasksOnly_registerSourceSetTasks other u p).imp fun _ h => .of_eq h.configurations_eq

theorem preserves_createSourceSet (other : String) (p : Project) :
    Keeps (Presenting name parents attributes) (ConfigM.createSourceSet other) p :=
  ConfigM.keeps_createSourceSet presenting_frame preserves_createConfiguration (fun _ _ => .of_eq rfl)
    (preserves_registerSourceSetTasks other) (fun _ _ => .of_eq rfl) p

theorem preserves_registerProcessingTask (kind : ProcessingKind) (input classpath : String) (roots : FileCollection)
    (outputs : ProcessingOutputs) (p : Project) :
    Keeps (Presenting name parents attributes) (ConfigM.registerProcessingTask kind input classpath roots outputs) p :=
  ConfigM.keeps_registerProcessingTask presenting_frame (fun _ _ => preserves_onTasks _) (fun _ _ _ => .of_eq rfl) input
    classpath roots outputs p

theorem preserves_createProcessingClasspath (task sourceSet : String) (p : Project) :
    Keeps (Presenting name parents attributes) (ConfigM.createProcessingClasspath task sourceSet) p :=
  ConfigM.keeps_createProcessingClasspath presenting_frame preserves_createConfiguration task sourceSet p

/-- Wiring extends the compile classpath of the derived source set, and no other. -/
theorem preserves_wireProcessingTask {derived : String} (hne : compileClasspath derived ≠ name) (kind : ProcessingKind)
    (input classpath : String) (outputs : ProcessingOutputs) (p : Project) :
    Keeps (Presenting name parents attributes) (ConfigM.wireProcessingTask kind derived input classpath outputs) p :=
  ConfigM.keeps_wireProcessingTask presenting_frame preserves_addDependency (preserves_onSourceSets _)
    (preserves_extendConfiguration hne classpath) (preserves_registerProcessingTask kind input classpath)
    (fun _ _ => preserves_onTasks _) p

end

/-! ## Configurations that are new -/

/-- What was created was not there. -/
theorem fresh_of_createConfiguration {other : String} {setup : List Configurations.Setup} {u : Unit}
    (h : ConfigM.createConfiguration other setup p = .ok u q) : other ∉ p.configurations.names := by
  obtain ⟨r, hd, -⟩ := ConfigM.createConfiguration_eq_ok h
  exact (Configurations.declare_eq_ok hd).1

/-- The configurations of a source set that was created were not there. -/
theorem fresh_of_createSourceSet {other : String} {u : Unit} (h : ConfigM.createSourceSet other p = .ok u q) :
    implementation other ∉ p.configurations.names ∧ runtimeOnly other ∉ p.configurations.names ∧
      compileClasspath other ∉ p.configurations.names := by
  obtain ⟨q₁, -, hconfigurations, -⟩ := ConfigM.createSourceSet_ok h
  obtain ⟨p₁, p₂, p₃, p₄, h₁, h₂, h₃, h₄, -⟩ := ConfigM.createSourceSetConfigurations_ok hconfigurations
  -- what was there at first was still there when the next was created
  have he₁ : Evolves p p₁ := (ConfigM.evolves_createConfiguration _ _).of_ok h₁
  have he₂ : Evolves p p₂ := he₁.trans ((ConfigM.evolves_createConfiguration _ _).of_ok h₂)
  have he₃ : Evolves p p₃ := he₂.trans ((ConfigM.evolves_createConfiguration _ _).of_ok h₃)
  exact ⟨fresh_of_createConfiguration h₁,
    fun hn => fresh_of_createConfiguration h₃ (he₂.mem_configurations_names hn),
    fun hn => fresh_of_createConfiguration h₄ (he₃.mem_configurations_names hn)⟩

/-- The compile classpath whose attributes are changed comes with the source set that is derived. -/
theorem preserves_deriveSourceSet (other existing : String) (p : Project) :
    Keeps (Presenting name parents attributes) (ConfigM.deriveSourceSet other existing) p := by
  have hF : Frame (Presenting name parents attributes) := presenting_frame
  unfold ConfigM.deriveSourceSet
  refine .get_bind (.bind hF (ConfigM.keeps_ofExcept hF _ _) fun _ t _ => ?_)
  refine .andPreserve (preserves_createSourceSet other t) fun _ _ hcreate ht _ => ?_
  obtain ⟨-, -, hfresh⟩ := fresh_of_createSourceSet hcreate
  refine .bind hF (preserves_onSourceSets _ _) fun _ _ _ => .bind hF (preserves_onSourceSets _ _) fun _ _ _ => ?_
  have hne : compileClasspath other ≠ name := fun he => hfresh (he ▸ Configurations.Presents.mem ht)
  exact preserves_updateConfiguration
    (f := fun c => { c with attributes := ConfigM.requestClassesAndResources c.attributes }) (fun _ => rfl)
    (fun he => absurd he hne) _

/-- The configurations of the tests that are extended come with the source set `test`. -/
theorem preserves_applyJavaConventions (p : Project) :
    Keeps (Presenting name parents attributes) ConfigM.applyJavaConventions p := by
  have hF : Frame (Presenting name parents attributes) := presenting_frame
  unfold ConfigM.applyJavaConventions
  refine .bind hF (preserves_createSourceSet main p) fun _ t _ => ?_
  refine .andPreserve (preserves_createSourceSet test t) fun _ _ hcreate ht _ => ?_
  obtain ⟨himplementation, hruntime, -⟩ := fresh_of_createSourceSet hcreate
  have hmem : name ∈ t.configurations.names := Configurations.Presents.mem ht
  have hneImplementation : implementation test ≠ name := fun he => himplementation (he ▸ hmem)
  have hneRuntime : runtimeOnly test ≠ name := fun he => hruntime (he ▸ hmem)
  refine .bind hF (preserves_onSourceSets _ _) fun _ _ _ => ?_
  exact .bind hF (preserves_extendConfiguration hneImplementation _ _) fun _ _ _ =>
    preserves_extendConfiguration hneRuntime _ _

/-! ## The copy -/

/-- The new classpath presents what the runtime classpath presents, which is as before. Beyond the two their hierarchies
    are the same, and neither stands in that of the other. -/
theorem createProcessingClasspath_presents {task sourceSet : String} (hs : p.Sound)
    (hok : ConfigM.createProcessingClasspath task sourceSet p = .ok name q) :
    ∃ parents attributes beyond,
      p.configurations.Presents (runtimeClasspath sourceSet) parents attributes ∧
      q.configurations.Presents (runtimeClasspath sourceSet) parents attributes ∧
      q.configurations.Presents name parents attributes ∧
      q.configurations.hierarchy (runtimeClasspath sourceSet) = .ok (runtimeClasspath sourceSet :: beyond) ∧
      q.configurations.hierarchy name = .ok (name :: beyond) ∧
      name ∉ runtimeClasspath sourceSet :: beyond ∧ runtimeClasspath sourceSet ∉ name :: beyond := by
  obtain ⟨base, c, hbase, hfresh, hself, -, hattributes, hothers⟩ := createProcessingClasspath_entry hs hok
  have hstands := createProcessingClasspath_standsIn hs hok
  obtain ⟨beyond, hbefore, hafter, hname⟩ := hstands.preorders hs.configurations.sound
  have hbasemem := hstands.base_mem
  have hpresents : p.configurations.Presents (runtimeClasspath sourceSet)
      (p.configurations.graph.successors (runtimeClasspath sourceSet)) base.attributes :=
    ⟨if_pos (Configurations.contains_iff.mpr hbasemem), by rw [hbase]; rfl⟩
  have hreached : ∀ x ∈ runtimeClasspath sourceSet :: beyond, x ∈ p.configurations.names := by
    intro x hx
    rw [← hbefore, Digraph.mem_preorder] at hx
    rcases hx with rfl | hx
    · exact hbasemem
    · exact hx.ends.2.elim fun y hy => hs.configurations.sound.target y x hy
  have hapart : name ∉ runtimeClasspath sourceSet :: beyond := fun hn => hfresh (hreached name hn)
  have honce := p.configurations.graph.nodup_preorder (runtimeClasspath sourceSet)
  rw [hbefore] at honce
  obtain ⟨hbeyond, -⟩ := List.nodup_cons.mp honce
  refine ⟨_, _, beyond, hpresents, hpresents.of_entryOf?_eq (hothers _ hbasemem),
    Configurations.presents_iff.mpr ⟨c, hself, hattributes⟩, ?_, ?_, hapart, fun hn => ?_⟩
  · rw [Configurations.hierarchy, if_pos (Configurations.contains_iff.mpr (hstands.kept _ hbasemem).1), hafter]
  · rw [Configurations.hierarchy, if_pos (Configurations.contains_iff.mpr hstands.mem), hname]
  · rcases List.mem_cons.mp hn with he | hn
    · exact hfresh (he ▸ hbasemem)
    · exact hbeyond hn

end Project

end BuildGraph

/-
  BuildGraph.Proofs.Project.Creation: what creating leaves behind, whether it succeeds or fails.

  An operation that creates things under several names, one after another, goes on until a name is taken
  (`Creates`). Nothing is undone then: what was created before stays, and the error is for the taken name. All
  that was there before is as it was (`Gains`).

  - `Creates.bind`: what follows one another creates what its parts create, in that order.
  - `creates_buildSourceSet`: a source set is created with its configurations, then its tasks, and is registered last.
  - `Reachable.createSourceSet_error`: what a failed creation of a source set leaves.
-/

import BuildGraph.Proofs.Configuration.Creation
import BuildGraph.Proofs.Project.Parts
import BuildGraph.Proofs.Script.Reachable
import BuildGraph.Proofs.SourceSet.Clashes

namespace BuildGraph

open Operation Outline Project SourceSetName

/-- What is reported when the name is taken. -/
def Key.duplicate : Key → ConfigError
  | .sourceSet name => .duplicateSourceSetName name
  | .configuration name => .duplicateConfigurationName name
  | .task name => .duplicateTaskName name

namespace Project

variable {p q r : Project} {name : String} {k : Key} {e : Entry} {f : Entry → Entry} {new new' : List Key}

/-! ## Registered tasks and values stay as they are -/

/-- Nothing but the registries has changed, and no task that was registered. -/
structure Spares (p q : Project) : Prop where
  values : q = { p with sourceSets := q.sourceSets, configurations := q.configurations, tasks := q.tasks }
  tasks : ∀ name t, p.tasks.find? name = some t → q.tasks.find? name = some t

theorem spares_frame : Frame Spares where
  refl _ := ⟨rfl, fun _ _ h => h⟩
  trans h h' := ⟨h'.values.trans (by rw [h.values]), fun name t ht => h'.tasks name t (h.tasks name t ht)⟩

theorem Spares.of_sourceSets (p : Project) (r : SourceSets) : p.Spares { p with sourceSets := r } :=
  ⟨rfl, fun _ _ h => h⟩

theorem spares_onSourceSets (f : SourceSets → Except ConfigError SourceSets) (p : Project) :
    Keeps Spares (ConfigM.onSourceSets f) p := ConfigM.keeps_onSourceSets spares_frame fun r _ => .of_sourceSets p r

theorem Spares.of_configurationsOnly (h : ConfigM.ConfigurationsOnly p q) : p.Spares q := by
  refine ⟨by rw [h], fun name t ht => ?_⟩
  rw [h.tasks_eq]
  exact ht

theorem spares_createConfiguration (name : String) (setup : List Configurations.Setup) (p : Project) :
    Keeps Spares (ConfigM.createConfiguration name setup) p :=
  (ConfigM.configurationsOnly_createConfiguration name setup).imp fun _ => .of_configurationsOnly

theorem spares_onConfigurations (f : Configurations → Except ConfigError Configurations) (p : Project) :
    Keeps Spares (ConfigM.onConfigurations f) p :=
  (ConfigM.configurationsOnly_onConfigurations f).imp fun _ => .of_configurationsOnly

theorem spares_registerTask (name : String) (body : TaskBody) (cs : List Configurator) (p : Project) :
    Keeps Spares (ConfigM.registerTask name body cs) p :=
  ConfigM.keeps_onTasks spares_frame fun _ hr => ⟨rfl, fun _ _ => Tasks.find?_of_register hr⟩

theorem spares_dependsOn (dependent dependency : String) (p : Project) :
    Keeps Spares (ConfigM.dependsOn dependent dependency) p :=
  .of_eq_ok (ConfigM.onTasks_ok rfl) ⟨rfl, fun _ _ h => h⟩

theorem spares_registerSourceSetTasks (name : String) (u : UnitId) (p : Project) :
    Keeps Spares (ConfigM.registerSourceSetTasks name u) p :=
  ConfigM.keeps_registerSourceSetTasks spares_frame (fun task _ _ _ => spares_registerTask task _) spares_dependsOn u p

theorem spares_arranging : Arranging Spares where
  toFrame := spares_frame
  createConfiguration := spares_createConfiguration
  extendConfiguration _ _ := spares_onConfigurations _
  addDependency _ _ := spares_onConfigurations _
  editConfiguration _ _ := spares_onConfigurations _
  editSourceSet _ _ p _ _ _ := spares_onSourceSets _ p
  createSourceSet _ :=
    ConfigM.keeps_createSourceSet spares_frame spares_createConfiguration (fun p _ => .of_sourceSets p _)
      (spares_registerSourceSetTasks _) fun p _ => .of_sourceSets p _

/-! ## Gaining -/

/-- There is something under each of the new names, which were not given, and besides these all is as it was. -/
structure Gains (p q : Project) (new : List Key) : Prop extends Spares p q where
  fresh : ∀ k ∈ new, ¬ p.outline.Has k
  has_iff : ∀ k, q.outline.Has k ↔ p.outline.Has k ∨ k ∈ new
  kept : ∀ k, p.outline.Has k → q.outline k = p.outline k

namespace Gains

theorem of_eq (hs : p.Spares q) (h : q.outline = p.outline) : p.Gains q [] where
  toSpares := hs
  fresh := by simp
  has_iff := by simp [h]
  kept _ _ := by rw [h]

theorem refl (p : Project) : p.Gains p [] := .of_eq (spares_frame.refl p) rfl

theorem of_set (hs : p.Spares q) (hk : p.outline k = none) (h : q.outline = p.outline.set k e) : p.Gains q [k] where
  toSpares := hs
  fresh k' hk' := by simp [List.mem_singleton.mp hk', Has, hk]
  has_iff k' := by simp [h, or_comm]
  kept k' hk' := by
    rw [h, set_of_ne]
    rintro rfl
    simp [Has, hk] at hk'

theorem trans (h : p.Gains q new) (h' : q.Gains r new') : p.Gains r (new ++ new') where
  toSpares := spares_frame.trans h.toSpares h'.toSpares
  fresh k hk := (List.mem_append.mp hk).elim (h.fresh k) fun hk hp => h'.fresh k hk ((h.has_iff k).mpr (.inl hp))
  has_iff k := by rw [h'.has_iff, h.has_iff, List.mem_append, or_assoc]
  kept k hk := (h'.kept k ((h.has_iff k).mpr (.inl hk))).trans (h.kept k hk)

/-- What is new may still be changed. -/
theorem change (h : p.Gains q new) (hs : q.Spares r) (hk : k ∈ new) (hr : r.outline = q.outline.change k f) :
    p.Gains r new where
  toSpares := spares_frame.trans h.toSpares hs
  fresh := h.fresh
  has_iff k' := by rw [hr, has_change, h.has_iff]
  kept k' hk' := by
    have hne : k' ≠ k := fun he => h.fresh k hk (he ▸ hk')
    rw [hr, ← h.kept k' hk']
    exact if_neg hne

theorem has (h : p.Gains q new) (hk : k ∈ new) : q.outline.Has k := (h.has_iff k).mpr (.inr hk)

/-- A name that is given by now and is none of the new ones was given before. -/
theorem has_of_nodup {rest : List Key} (h : p.Gains q new) (hnodup : (new ++ k :: rest).Nodup) (hk : q.outline.Has k) :
    p.outline.Has k :=
  ((h.has_iff k).mp hk).resolve_right fun hnew => (List.nodup_append.mp hnodup).2.2 k hnew k (List.mem_cons_self ..) rfl

end Gains

/-! ## Creating one thing after another -/

/-- `m` creates what `keys` name, in this order. Should a name be taken, this is what is reported, and what comes before
    it has been created. -/
def Creates (m : ConfigM Unit) (keys : List Key) (p : Project) : Prop :=
  (∃ q, m p = .ok ⟨⟩ q ∧ q.Sound ∧ p.Gains q keys) ∨
    ∃ made k rest q, keys = made ++ k :: rest ∧ m p = .error k.duplicate q ∧ p.Gains q made ∧ q.outline.Has k

namespace Creates

variable {m : ConfigM Unit} {g : Unit → ConfigM Unit} {keys keys' : List Key}

/-- What follows one another creates what its parts create. -/
theorem bind (h : Creates m keys p)
    (hg : ∀ q, m p = .ok ⟨⟩ q → q.Sound → p.Gains q keys → Creates (g ⟨⟩) keys' q) :
    Creates (m >>= g) (keys ++ keys') p := by
  rcases h with ⟨q, hq, hs, hgains⟩ | ⟨made, k, rest, q, rfl, hq, hgains, hk⟩
  · rcases hg q hq hs hgains with ⟨r, hr, hs', hgains'⟩ | ⟨made, k, rest, r, rfl, hr, hgains', hk⟩
    · exact .inl ⟨r, (bind_of_ok hq).trans hr, hs', hgains.trans hgains'⟩
    · exact .inr ⟨keys ++ made, k, rest, r, (List.append_assoc ..).symm, (bind_of_ok hq).trans hr,
        hgains.trans hgains', hk⟩
  · exact .inr ⟨made, k, rest ++ keys', q, by simp, bind_of_error hq, hgains, hk⟩

/-- What was created may be changed by what follows. -/
theorem andThen (h : Creates m keys p)
    (hg : ∀ q, q.Sound → p.Gains q keys → ∃ r, g ⟨⟩ q = .ok ⟨⟩ r ∧ r.Sound ∧ p.Gains r keys) :
    Creates (m >>= g) keys p := by
  rcases h with ⟨q, hq, hs, hgains⟩ | ⟨made, k, rest, q, rfl, hq, hgains, hk⟩
  · obtain ⟨r, hr, hs', hgains'⟩ := hg q hs hgains
    exact .inl ⟨r, (bind_of_ok hq).trans hr, hs', hgains'⟩
  · exact .inr ⟨made, k, rest, q, rfl, bind_of_error hq, hgains, hk⟩

theorem get_bind {g : Project → ConfigM Unit} (h : Creates (g p) keys p) : Creates (get >>= g) keys p := h

theorem of_taken {k : Key} (hk : p.outline.Has k) (h : m p = .error k.duplicate p) : Creates m [k] p :=
  .inr ⟨[], k, [], p, rfl, h, .refl p, hk⟩

/-- It succeeds exactly if all names are new. -/
theorem succeeds_iff (h : Creates m keys p) (hkeys : keys.Nodup) :
    (∃ q, m p = .ok ⟨⟩ q) ↔ ∀ k ∈ keys, ¬ p.outline.Has k := by
  rcases h with ⟨q, hq, -, hgains⟩ | ⟨made, k, rest, q, rfl, hq, hgains, hk⟩
  · exact ⟨fun _ => hgains.fresh, fun _ => ⟨q, hq⟩⟩
  · refine ⟨fun ⟨r, hr⟩ => ?_, fun hnew => ?_⟩
    · rw [hq] at hr
      cases hr
    · exact absurd (hgains.has_of_nodup hkeys hk) (hnew k (by simp))

end Creates

end Project

namespace ConfigM

variable {p q : Project} {name : String}

/-! ## Creating a configuration or a task -/

theorem has_configuration_iff : p.outline.Has (.configuration name) ↔ name ∈ p.configurations.names :=
  Configurations.mem_names_iff.symm

theorem has_task_iff : p.outline.Has (.task name) ↔ name ∈ p.tasks.names := Tasks.mem_names_iff.symm

theorem has_sourceSet_iff (hs : p.Sound) : p.outline.Has (.sourceSet name) ↔ name ∈ p.sourceSets.names :=
  (SourceSets.mem_names_iff hs.sourceSets).symm

/-- A taken name is refused. -/
theorem createConfiguration_of_mem (h : name ∈ p.configurations.names) (setup : List Configurations.Setup) :
    createConfiguration name setup p = .error (.duplicateConfigurationName name) p := by
  rw [createConfiguration, Configurations.create_of_mem h]

/-- A new configuration that is to extend what is there is created. -/
theorem createConfiguration_of_new {setup : List Configurations.Setup} (hs : p.configurations.Sound)
    (hnew : name ∉ p.configurations.names)
    (hsetup : ∀ parent, .extendsFrom parent ∈ setup → parent ∈ p.configurations.names) :
    ∃ q, createConfiguration name setup p = .ok ⟨⟩ q := by
  obtain ⟨r, hr, -⟩ := hs.create_of_new hnew hsetup
  exact ⟨{ p with configurations := r }, by rw [createConfiguration, hr]⟩

theorem creates_createConfiguration (hs : p.Sound) {setup : List Configurations.Setup}
    (hsetup : ∀ parent, .extendsFrom parent ∈ setup → p.outline.Has (.configuration parent)) :
    Creates (createConfiguration name setup) [.configuration name] p := by
  by_cases hname : name ∈ p.configurations.names
  · exact .of_taken (has_configuration_iff.mpr hname) (createConfiguration_of_mem hname setup)
  · obtain ⟨q, hq⟩ := createConfiguration_of_new hs.configurations.sound hname fun parent hp =>
      has_configuration_iff.mp (hsetup parent hp)
    obtain ⟨hnone, houtline⟩ := outline_createConfiguration hs hq
    exact .inl ⟨q, hq, hs.evolves ((evolves_createConfiguration _ _).of_ok hq),
      .of_set ((spares_createConfiguration _ _ _).of_ok hq) hnone houtline⟩

theorem creates_registerTask (hs : p.Sound) (name : String) (body : TaskBody) (cs : List Configurator) :
    Creates (registerTask name body cs) [.task name] p := by
  by_cases hname : name ∈ p.tasks.names
  · exact .of_taken (has_task_iff.mpr hname) (registerTask_error (if_pos (Tasks.contains_iff.mpr hname)))
  · obtain ⟨q, hq⟩ : ∃ q, registerTask name body cs p = .ok ⟨⟩ q :=
      ⟨_, registerTask_ok (if_neg fun hc => hname (Tasks.contains_iff.mp hc))⟩
    obtain ⟨hnone, houtline⟩ := outline_registerTask hs hq
    exact .inl ⟨_, hq, hs.evolves ((evolves_registerTask _ _ _).of_ok hq),
      .of_set ((spares_registerTask _ _ _ _).of_ok hq) hnone houtline⟩

/-! ## Creating a source set -/

theorem creates_createSourceSetConfigurations (hs : p.Sound) (name : String) :
    Creates (createSourceSetConfigurations name) ((configurations name).map .configuration) p := by
  show Creates (createSourceSetConfigurations name) ([.configuration (implementation name)] ++
    ([.configuration (compileOnly name)] ++ ([.configuration (runtimeOnly name)] ++
      ([.configuration (compileClasspath name)] ++ [.configuration (runtimeClasspath name)])))) p
  have hbucket : ∀ purpose (q : Project) parent, .extendsFrom parent ∈ bucketSetup purpose name →
      q.outline.Has (.configuration parent) := by
    intro purpose q parent hparent
    simp [bucketSetup] at hparent
  unfold createSourceSetConfigurations
  refine (creates_createConfiguration hs (hbucket _ _)).bind fun q₁ _ hs₁ h₁ => ?_
  refine (creates_createConfiguration hs₁ (hbucket _ _)).bind fun q₂ _ hs₂ h₂ => ?_
  refine (creates_createConfiguration hs₂ (hbucket _ _)).bind fun q₃ _ hs₃ h₃ => ?_
  -- what the classpaths extend has been created by now
  have h₁₃ := h₁.trans (h₂.trans h₃)
  refine (creates_createConfiguration hs₃ ?_).bind fun q₄ _ hs₄ h₄ => creates_createConfiguration hs₄ ?_
  · intro parent hparent
    have hparent : parent = compileOnly name ∨ parent = implementation name := by
      simpa [compileClasspathSetup] using hparent
    exact h₁₃.has (by rcases hparent with rfl | rfl <;> simp)
  · intro parent hparent
    have hparent : parent = runtimeOnly name ∨ parent = implementation name := by
      simpa [runtimeClasspathSetup] using hparent
    exact (h₁₃.trans h₄).has (by rcases hparent with rfl | rfl <;> simp)

/-- A task that is new may be made to depend on others. -/
theorem dependsOn_of_gains {dependent dependency : String} {new : List Key} (h : p.Gains q new) (hs : q.Sound)
    (hd : .task dependent ∈ new) (hy : q.outline.Has (.task dependency)) :
    ∃ r, dependsOn dependent dependency q = .ok ⟨⟩ r ∧ r.Sound ∧ p.Gains r new := by
  have hr : dependsOn dependent dependency q = .ok ⟨⟩ _ := onTasks_ok rfl
  have hevolves := (evolves_dependsOn (has_task_iff.mp (h.has hd)) (has_task_iff.mp hy)).of_ok hr
  exact ⟨_, hr, hs.evolves hevolves, h.change ((spares_dependsOn _ _ _).of_ok hr) hd (outline_dependsOn hr)⟩

/-- The tasks depend on one another once all of them are registered. -/
theorem creates_registerSourceSetTasks (hs : p.Sound) (name : String) (u : UnitId) :
    Creates (registerSourceSetTasks name u) ((tasks name).map .task) p := by
  show Creates (registerSourceSetTasks name u) ([.task (compileJava name)] ++
    ([.task (processResources name)] ++ [.task (classes name)])) p
  unfold registerSourceSetTasks
  refine (creates_registerTask hs _ _ _).bind fun q₁ _ hs₁ h₁ => ?_
  refine (creates_registerTask hs₁ _ _ _).bind fun q₂ _ hs₂ h₂ => ?_
  refine (creates_registerTask hs₂ _ _ _).andThen fun q₃ hs₃ h₃ => ?_
  have hclasses : .task (classes name) ∈ [Key.task (classes name)] := List.mem_singleton_self _
  have hcompile : q₃.outline.Has (.task (compileJava name)) := (h₁.trans (h₂.trans h₃)).has (by simp)
  obtain ⟨q₄, hq₄, hs₄, h₄⟩ := dependsOn_of_gains h₃ hs₃ hclasses hcompile
  have hresources : q₄.outline.Has (.task (processResources name)) := (h₂.trans h₄).has (by simp)
  obtain ⟨q₅, hq₅, hs₅, h₅⟩ := dependsOn_of_gains h₄ hs₄ hclasses hresources
  exact ⟨q₅, (bind_of_ok hq₄).trans hq₅, hs₅, h₅⟩

/-- What is laid out is not there before it is registered. -/
theorem creates_layOut (hs : p.Sound) (s : SourceSet) : Creates (onSourceSets fun r => .ok (r.layOut s)) [] p := by
  have hq : onSourceSets (fun r => .ok (r.layOut s)) p = .ok ⟨⟩ _ := onSourceSets_ok rfl
  exact .inl ⟨_, hq, hs.evolves ((evolves_layOut s).of_ok hq),
    .of_eq ((spares_onSourceSets _ _).of_ok hq) (outline_layOut hs s hq)⟩

theorem creates_register (hs : p.Sound) {s : SourceSet} {u : UnitId} (hnew : name ∉ p.sourceSets.names)
    (hu : p.sourceSets.units[u]? = some s) (hname : s.name = name) :
    Creates (onSourceSets fun r => .ok (r.register name u)) [.sourceSet name] p := by
  have hq : onSourceSets (fun r => .ok (r.register name u)) p = .ok ⟨⟩ _ := onSourceSets_ok rfl
  refine .inl ⟨_, hq, hs.evolves (.single (.sourceSets (.register hnew hu hname))), ?_⟩
  exact .of_set ((spares_onSourceSets _ _).of_ok hq) (SourceSets.entryOf?_of_not_mem hnew) (outline_register hnew hu hq)

/-- What a source set comes with, in order of creation. -/
def sourceSetParts (name : String) : List Key := (configurations name).map .configuration ++ (tasks name).map .task

/-- Its names are those of its parts, and its own. -/
theorem mem_sourceSetKeys_iff {k : Key} : k ∈ sourceSetKeys name ↔ k ∈ sourceSetParts name ++ [.sourceSet name] := by
  rw [show sourceSetParts name ++ [.sourceSet name] = (sourceSetKeys name).reverse from rfl, List.mem_reverse]

theorem sourceSet_mem_keys {a : String} : .sourceSet a ∈ sourceSetKeys name ↔ a = name := by
  simp [mem_sourceSetKeys_iff, sourceSetParts]

theorem configuration_mem_keys {a : String} : .configuration a ∈ sourceSetKeys name ↔ a ∈ configurations name := by
  simp [mem_sourceSetKeys_iff, sourceSetParts]

theorem task_mem_keys {a : String} : .task a ∈ sourceSetKeys name ↔ a ∈ tasks name := by
  simp [mem_sourceSetKeys_iff, sourceSetParts]

/-- The configurations are created first, then the tasks; the source set is registered last. -/
theorem creates_buildSourceSet (hs : p.Sound) (hnew : name ∉ p.sourceSets.names) :
    Creates (buildSourceSet name) (sourceSetParts name ++ [.sourceSet name]) p := by
  rw [sourceSetParts, List.append_assoc]
  unfold buildSourceSet
  refine (creates_createSourceSetConfigurations hs name).bind fun q₁ hq₁ hs₁ _ => .get_bind ?_
  refine (creates_layOut hs₁ (conventionalSourceSet name)).bind fun q₂ hq₂ hs₂ _ => ?_
  refine (creates_registerSourceSetTasks hs₂ name _).bind fun q₃ hq₃ hs₃ _ => ?_
  -- neither the configurations nor the tasks make a difference to the source sets
  have hq₁ : q₁.sourceSets = p.sourceSets :=
    ((configurationsOnly_createSourceSetConfigurations name p).of_ok hq₁).sourceSets_eq
  have hq₃ : q₃.sourceSets = q₁.sourceSets.layOut (conventionalSourceSet name) := by
    cases hq₂
    exact ((tasksOnly_registerSourceSetTasks name _ _).of_ok hq₃).sourceSets_eq
  refine creates_register (s := conventionalSourceSet name) hs₃ ?_ ?_ rfl
  · rw [hq₃, SourceSets.names_layOut, hq₁]
    exact hnew
  · rw [hq₃]
    exact List.getElem?_concat_length

theorem nodup_sourceSetParts (name : String) : (sourceSetParts name ++ [Key.sourceSet name]).Nodup := by
  have hconfigurations := (nodup_configurations name).map fun _ _ h => Key.configuration.inj h
  have htasks := (nodup_tasks name).map fun _ _ h => Key.task.inj h
  rw [← List.concat_eq_append]
  refine List.Nodup.concat (by simp [sourceSetParts]) (List.nodup_append.mpr ⟨hconfigurations, htasks, ?_⟩)
  simp only [List.mem_map]
  rintro _ ⟨a, -, rfl⟩ _ ⟨b, -, rfl⟩ h
  cases h

/-- If the first configuration cannot be created, nothing is. -/
theorem buildSourceSet_of_first_taken (h : implementation name ∈ p.configurations.names) :
    buildSourceSet name p = .error (.duplicateConfigurationName (implementation name)) p :=
  bind_of_error (bind_of_error (createConfiguration_of_mem h _))

/-- What a source set that was created has brought. -/
theorem gains_createSourceSet (hs : p.Sound) (hq : createSourceSet name p = .ok ⟨⟩ q) :
    p.Gains q (sourceSetParts name ++ [.sourceSet name]) := by
  rcases createSourceSet_cases name p with ⟨hc, -⟩ | ⟨hc, hnew⟩
  · rw [hc] at hq
    cases hq
  rw [hc] at hq
  rcases creates_buildSourceSet hs hnew with ⟨r, hr, -, hgains⟩ | ⟨_, _, _, r, -, hr, -⟩
  · cases hr.symm.trans hq
    exact hgains
  · cases hr.symm.trans hq

/-- A source set can be created exactly if all names that come with it are free. -/
theorem createSourceSet_succeeds_iff (hs : p.Sound) :
    (∃ q, createSourceSet name p = .ok ⟨⟩ q) ↔ ∀ k ∈ sourceSetKeys name, ¬ p.outline.Has k := by
  simp only [mem_sourceSetKeys_iff]
  rcases createSourceSet_cases name p with ⟨hc, hname⟩ | ⟨hc, hnew⟩
  · rw [hc]
    refine ⟨fun ⟨q, hq⟩ => (nomatch hq), fun h => ?_⟩
    exact absurd ((has_sourceSet_iff hs).mpr hname) (h _ (List.mem_append_right _ (List.mem_singleton_self _)))
  · rw [hc]
    exact (creates_buildSourceSet hs hnew).succeeds_iff (nodup_sourceSetParts name)

end ConfigM

namespace Project

variable {p q : Project} {name : String} {e : ConfigError}

/-- A source set whose name is taken is refused, and the project is untouched. Any other failure is for the first of
    the names of its configurations and tasks that is taken, in order of creation. No source set has been added then,
    but what comes before that name has; the project is untouched if and only if it is the very first. All that was
    there before is as it was. -/
theorem Reachable.createSourceSet_error (h : p.Reachable) (he : ConfigM.createSourceSet name p = .error e q) :
    (name ∈ p.sourceSets.names ∧ e = .duplicateSourceSetName name ∧ q = p) ∨
      (name ∉ p.sourceSets.names ∧ ∃ made k rest, ConfigM.sourceSetParts name = made ++ k :: rest ∧ p.outline.Has k ∧
        e = k.duplicate ∧ p.Gains q made ∧ (q = p ↔ made = [])) := by
  rcases ConfigM.createSourceSet_cases name p with ⟨hc, hname⟩ | ⟨hc, hnew⟩
  · cases hc.symm.trans he
    exact .inl ⟨hname, rfl, rfl⟩
  refine .inr ⟨hnew, ?_⟩
  have hbuild := hc.symm.trans he
  rcases ConfigM.creates_buildSourceSet h.sound hnew with ⟨r, hr, -⟩ | ⟨made, k, rest, r, hkeys, hr, hgains, hk⟩
  · cases hr.symm.trans hbuild
  cases hr.symm.trans hbuild
  have htaken : p.outline.Has k := hgains.has_of_nodup (hkeys ▸ ConfigM.nodup_sourceSetParts name) hk
  -- the source set is not there, so it is not its own name that is taken
  rcases List.eq_nil_or_concat rest with rfl | ⟨rest, last, rfl⟩
  · obtain rfl : k = .sourceSet name := by
      have := congrArg List.getLast? hkeys
      simpa using this.symm
    exact absurd ((ConfigM.has_sourceSet_iff h.sound).mp htaken) hnew
  have hparts : ConfigM.sourceSetParts name = made ++ k :: rest := by
    rw [List.concat_eq_append, ← List.cons_append, ← List.append_assoc] at hkeys
    exact (List.append_inj' hkeys rfl).1
  refine ⟨made, k, rest, hparts, htaken, rfl, hgains, ?_⟩
  constructor
  · rintro rfl
    refine List.eq_nil_iff_forall_not_mem.mpr fun x hx => hgains.fresh x hx (hgains.has hx)
  · rintro rfl
    obtain rfl : k = .configuration (implementation name) := (List.cons.inj hparts).1.symm
    cases (ConfigM.buildSourceSet_of_first_taken (ConfigM.has_configuration_iff.mp htaken)).symm.trans hr
    rfl

/-- `Foo` cannot be created besides `foo`, as both would have the task `compileFooJava`; this is found once its five
    configurations are there. -/
theorem Reachable.createSourceSet_error_of_foo :
    ∃ p q, p.Reachable ∧ ConfigM.createSourceSet "Foo" p = .error (.duplicateTaskName "compileFooJava") q ∧
      p.Gains q ((SourceSetName.configurations "Foo").map .configuration) := by
  obtain ⟨p, q, hreachable, hq⟩ : ∃ p q, p.Reachable ∧
      ConfigM.createSourceSet "Foo" p = .error (.duplicateTaskName "compileFooJava") q :=
    ⟨_, _, Session.performAll_reachable {} [.act (.sourceSet (.create "foo"))], rfl⟩
  refine ⟨p, q, hreachable, hq, ?_⟩
  rcases Reachable.createSourceSet_error hreachable hq with ⟨-, he, -⟩ | ⟨-, made, k, rest, hparts, -, he, hgains, -⟩
  · cases he
  obtain rfl : k = .task "compileFooJava" := by
    cases k <;> cases he
    rfl
  -- each name is there once, so what comes before the task is what was created before it
  have hnodup : (made ++ Key.task "compileFooJava" :: rest).Nodup :=
    hparts ▸ (List.nodup_append.mp (ConfigM.nodup_sourceSetParts "Foo")).1
  have hnot := (List.nodup_cons.mp (List.nodup_middle.mp hnodup)).1
  rw [List.mem_append, not_or] at hnot
  have hfoo : ConfigM.sourceSetParts "Foo" = (SourceSetName.configurations "Foo").map .configuration ++
      Key.task "compileFooJava" :: [.task "processFooResources", .task "FooClasses"] := by decide
  have hmade := (List.append_cons_inj_of_notMem hnot.1 hnot.2).mp (hparts.symm.trans hfoo)
  exact hmade.1 ▸ hgains

/-- So a failed creation of a source set may leave configurations that were not there before. -/
theorem createSourceSet_leaves_configurations :
    ∃ p q, p.Reachable ∧ ConfigM.createSourceSet "Foo" p = .error (.duplicateTaskName "compileFooJava") q ∧
      p.configurations.names = ["fooImplementation", "fooCompileOnly", "fooRuntimeOnly", "fooCompileClasspath",
        "fooRuntimeClasspath"] ∧
      q.configurations.names = p.configurations.names ++ ["FooImplementation", "FooCompileOnly", "FooRuntimeOnly",
        "FooCompileClasspath", "FooRuntimeClasspath"] :=
  ⟨_, _, Session.performAll_reachable {} [.act (.sourceSet (.create "foo"))], rfl, rfl, rfl⟩

end Project

end BuildGraph

/-
  BuildGraph.Proofs.Project.Operations: whatever an operation on a project does, the project evolves.

  This holds of every operation, whether it succeeds or fails, and however far it comes.
-/

import BuildGraph.Proofs.Project.Arrangement
import BuildGraph.Proofs.Project.Evaluation
import BuildGraph.Proofs.Project.Evolution

namespace BuildGraph

open Operation Project Relation

/-! ## Single steps -/

namespace Configurations

theorem Course.steps (name : String) (course : Course) (r : Configurations) :
    ReflTransGen Step r (course.run name r).2 := by
  induction course generalizing r with
  | finish verdict => exact .refl
  | look next ih =>
    unfold run
    split
    · exact ih _ r
    · exact .refl
  | edit e next ih => exact .head (.edit name e) (ih _)
  | extend parent next ih =>
    unfold run
    split
    · rename_i s hs
      exact .head (.extend hs) (ih _ s)
    · exact ih _ r

theorem createBy_steps (name : String) (course : Course) (r : Configurations) :
    ReflTransGen Step r (r.createBy name course).2 := by
  unfold createBy
  cases hs : r.declare name with
  | error e => exact .refl
  | ok s => exact .head (.declare hs) (course.steps name s)

end Configurations

namespace Project

theorem Evolves.configurations {p : Project} {r : Configurations} (h : ReflTransGen Configurations.Step p.configurations r) :
    Evolves p { p with configurations := r } := by
  induction h with
  | refl => exact .refl
  | tail _ hs ih => exact ih.tail (.configurations hs)

theorem realizing_evolves : Realizing Evolves where
  toFrame := evolves_frame
  mark _ name := .single (.tasks (.edit name (fun _ => rfl) fun _ _ => rfl))
  body _ name _ := .single (.tasks (.edit name (fun _ => rfl) fun _ h => h))
  resolve p _ _ := .single (.values p.group p.layout.buildDir p.properties _)

end Project

namespace ConfigM

variable {p : Project}

theorem evolves_createConfiguration (name : String) (setup : List Configurations.Setup) :
    Keeps Evolves (createConfiguration name setup) p := by
  unfold Keeps
  rw [after_createConfiguration, Configurations.create_eq_createBy]
  exact Evolves.configurations (Configurations.createBy_steps name _ _)

theorem evolves_onConfigurations {f : Configurations → Except ConfigError Configurations}
    (h : ∀ r, f p.configurations = .ok r → p.configurations.Step r) : Keeps Evolves (onConfigurations f) p :=
  keeps_onConfigurations evolves_frame fun r hr => .single (.configurations (h r hr))

theorem evolves_extendConfiguration (child parent : String) : Keeps Evolves (extendConfiguration child parent) p :=
  evolves_onConfigurations fun _ hr => .extend hr

theorem evolves_addDependency (configuration : String) (d : Dependency) :
    Keeps Evolves (addDependency configuration d) p := evolves_onConfigurations fun _ hr => .addDependency hr

theorem evolves_editConfiguration (name : String) (e : Configurations.Edit) :
    Keeps Evolves (onConfigurations (·.update name e.apply)) p :=
  evolves_onConfigurations fun _ hr => Configurations.update_eq_ok hr ▸ .edit name e

theorem evolves_editSourceSet (name : String) {f : SourceSet → SourceSet} (hf : ∀ s, (f s).name = s.name) :
    Keeps Evolves (onSourceSets (·.update name f)) p :=
  keeps_updateSourceSet evolves_frame name fun u => .single (.sourceSets (.edit u hf))

theorem evolves_layOut (s : SourceSet) : Keeps Evolves (onSourceSets fun r => .ok (r.layOut s)) p := by
  refine keeps_onSourceSets evolves_frame ?_
  intro r hr
  cases hr
  exact .single (.sourceSets (.layOut s))

theorem evolves_insert (s : SourceSet) : Keeps Evolves (onSourceSets (·.insert s)) p := by
  refine keeps_onSourceSets evolves_frame ?_
  intro r hr
  unfold SourceSets.insert at hr
  split at hr
  · cases hr
  · rename_i hc
    cases hr
    refine .tail (.single (.sourceSets (.layOut s))) (.sourceSets (.register (s := s) ?_ ?_ rfl))
    · exact SourceSets.not_mem_of_contains hc
    · show (p.sourceSets.units ++ [s])[p.sourceSets.units.length]? = some s
      simp

theorem evolves_onTasks {f : Tasks → Except ConfigError Tasks} (h : ∀ r, f p.tasks = .ok r → p.tasks.Step r) :
    Keeps Evolves (onTasks f) p := keeps_onTasks evolves_frame fun r hr => .single (.tasks (h r hr))

theorem evolves_registerTask (name : String) (body : TaskBody) (cs : List Configurator) :
    Keeps Evolves (registerTask name body cs) p := evolves_onTasks fun _ hr => .register hr

theorem evolves_dependsOn {dependent dependency : String} (hd : dependent ∈ p.tasks.names)
    (hy : dependency ∈ p.tasks.names) : Keeps Evolves (dependsOn dependent dependency) p :=
  evolves_onTasks fun _ hr => by
    cases hr
    exact .dependsOn hd hy

theorem evolves_addProviders (cells : List Provider) : Keeps Evolves (addProviders cells) p :=
  .of_modify (.single (.values p.group p.layout.buildDir p.properties _))

/-! ## Tasks -/

/-- A task that was registered is there. -/
theorem mem_of_registerTask {q : Project} {name : String} {body : TaskBody} {cs : List Configurator}
    (h : registerTask name body cs p = .ok ⟨⟩ q) : name ∈ q.tasks.names := by
  obtain ⟨r, hr, rfl⟩ := onTasks_eq_ok h
  show name ∈ r.names
  rw [Tasks.names_of_register hr]
  exact List.mem_append_right _ (List.mem_singleton_self _)

theorem mem_of_get {name : String} {t : Task} (h : p.tasks.get name = .ok t) : name ∈ p.tasks.names := by
  unfold Tasks.get at h
  split at h
  · rename_i hf
    exact Tasks.exists_find?_iff.mp ⟨_, hf⟩
  · cases h

theorem name_of_get {name : String} {t : Task} (h : p.tasks.get name = .ok t) : t.name = name := by
  unfold Tasks.get at h
  split at h
  · rename_i hf
    cases h
    exact Tasks.name_of_find? hf
  · cases h

/-! ## Source sets -/

theorem evolves_registerSourceSetTasks (name : String) (u : UnitId) :
    Keeps Evolves (registerSourceSetTasks name u) p := by
  unfold registerSourceSetTasks
  refine .andThen evolves_frame (evolves_registerTask _ _ _) ?_
  intro _ q₁ h₁ _
  refine .andThen evolves_frame (evolves_registerTask _ _ _) ?_
  intro _ q₂ h₂ hq₂
  refine .andThen evolves_frame (evolves_registerTask _ _ _) ?_
  intro _ q₃ h₃ hq₃
  -- all three tasks are there by now, so the dependencies lead between registered tasks
  have hcompile := hq₃.mem_tasks_names (hq₂.mem_tasks_names (mem_of_registerTask h₁))
  have hresources := hq₃.mem_tasks_names (mem_of_registerTask h₂)
  have hclasses := mem_of_registerTask h₃
  refine .andThen evolves_frame (evolves_dependsOn hclasses hcompile) ?_
  intro _ q₄ _ hq₄
  exact evolves_dependsOn (hq₄.mem_tasks_names hclasses) (hq₄.mem_tasks_names hresources)

/-- A source set is registered under a name that is not taken, and nothing registers this name in between. -/
theorem evolves_buildSourceSet {name : String} (hnew : name ∉ p.sourceSets.names) :
    Keeps Evolves (buildSourceSet name) p := by
  unfold buildSourceSet
  have hconfigurations := keeps_createSourceSetConfigurations evolves_frame (fun _ _ _ => evolves_createConfiguration _ _)
  refine .bind evolves_frame (hconfigurations name p) fun _ q₁ h₁ => .get_bind ?_
  refine .bind evolves_frame (evolves_layOut _) ?_
  intro _ q₂ h₂
  refine .bind evolves_frame (evolves_registerSourceSetTasks name _) ?_
  intro _ q₃ h₃
  have hs₁ : q₁.sourceSets = p.sourceSets :=
    ((configurationsOnly_createSourceSetConfigurations name p).of_ok h₁).sourceSets_eq
  have hs₃ : q₃.sourceSets = q₁.sourceSets.layOut (conventionalSourceSet name) := by
    obtain ⟨r, hr, rfl⟩ := onSourceSets_eq_ok h₂
    cases hr
    exact ((tasksOnly_registerSourceSetTasks name _ _).of_ok h₃).sourceSets_eq
  refine keeps_onSourceSets evolves_frame ?_
  intro r hr
  cases hr
  refine .single (.sourceSets (.register (s := conventionalSourceSet name) ?_ ?_ rfl))
  · rw [hs₃, SourceSets.names_layOut, hs₁]
    exact hnew
  · rw [hs₃]
    show (q₁.sourceSets.units ++ [conventionalSourceSet name])[q₁.sourceSets.units.length]? = _
    simp

theorem evolves_createSourceSet (name : String) : Keeps Evolves (createSourceSet name) p := by
  rcases createSourceSet_cases name p with ⟨h, -⟩ | ⟨h, hnew⟩
  · exact .of_eq_error h .refl
  · exact .of_eq h (evolves_buildSourceSet hnew)

theorem evolves_arranging : Arranging Evolves where
  toFrame := evolves_frame
  createConfiguration _ _ _ := evolves_createConfiguration _ _
  extendConfiguration _ _ _ := evolves_extendConfiguration _ _
  addDependency _ _ _ := evolves_addDependency _ _
  editConfiguration _ e _ := evolves_editConfiguration _ e
  editSourceSet _ _ _ hname _ _ := evolves_editSourceSet _ hname
  createSourceSet _ _ := evolves_createSourceSet _

/-! ## Ahead-of-time processing -/

/-- What wiring needs is there if it was found, and finding it changes nothing. -/
theorem requireProcessingParts_eq_ok {q : Project} {kind : ProcessingKind} {derived input : String} {s : SourceSet}
    (h : requireProcessingParts kind derived input p = .ok s q) :
    q = p ∧ (∃ d, p.sourceSets.get derived = .ok d) ∧ SourceSetName.compileJava derived ∈ p.tasks.names ∧
      SourceSetName.processResources derived ∈ p.tasks.names ∧ p.sourceSets.get input = .ok s ∧
      (kind = .application → ∃ t, p.tasks.named .resolveMainClassName mainClassTask = .ok t) := by
  unfold requireProcessingParts at h
  obtain ⟨_, _, hget, h⟩ := bind_ok h
  cases hget
  obtain ⟨d, q₁, hd, h⟩ := bind_ok h
  obtain ⟨hd, rfl⟩ := ofExcept_eq_ok hd
  obtain ⟨c, q₂, hc, h⟩ := bind_ok h
  obtain ⟨hc, rfl⟩ := ofExcept_eq_ok hc
  obtain ⟨r, q₃, hr, h⟩ := bind_ok h
  obtain ⟨hr, rfl⟩ := ofExcept_eq_ok hr
  obtain ⟨i, q₄, hi, h⟩ := bind_ok h
  obtain ⟨hi, rfl⟩ := ofExcept_eq_ok hi
  cases kind with
  | application =>
    obtain ⟨t, q₅, ht, hend⟩ := bind_ok h
    obtain ⟨ht, rfl⟩ := ofExcept_eq_ok ht
    cases hend
    exact ⟨rfl, ⟨d, hd⟩, mem_of_get hc, mem_of_get hr, hi, fun _ => ⟨t, ht⟩⟩
  | tests main =>
    cases h
    exact ⟨rfl, ⟨d, hd⟩, mem_of_get hc, mem_of_get hr, hi, fun h => by cases h⟩

theorem evolves_registerProcessingTask (kind : ProcessingKind) (input classpath : String) (roots : FileCollection)
    (outputs : ProcessingOutputs) : Keeps Evolves (registerProcessingTask kind input classpath roots outputs) p :=
  keeps_registerProcessingTask evolves_frame (fun _ _ _ => evolves_registerTask _ _ _) (fun _ _ _ => .single (.values ..)) input
    classpath roots outputs p

theorem mem_of_registerProcessingTask {q : Project} {kind : ProcessingKind} {input classpath : String}
    {roots : FileCollection} {outputs : ProcessingOutputs}
    (h : registerProcessingTask kind input classpath roots outputs p = .ok ⟨⟩ q) : kind.taskName ∈ q.tasks.names := by
  unfold registerProcessingTask at h
  obtain ⟨_, _, hget, h⟩ := bind_ok h
  cases hget
  cases kind with
  | application =>
    obtain ⟨_, q₁, hr, h⟩ := bind_ok h
    exact ((evolves_addProviders _).of_ok h).mem_tasks_names (mem_of_registerTask hr)
  | tests main =>
    obtain ⟨_, q₁, hr, h⟩ := bind_ok h
    exact ((evolves_addProviders _).of_ok h).mem_tasks_names (mem_of_registerTask hr)

theorem evolves_wireProcessingTask (kind : ProcessingKind) (derived input classpath : String)
    (outputs : ProcessingOutputs) : Keeps Evolves (wireProcessingTask kind derived input classpath outputs) p := by
  unfold wireProcessingTask
  refine .bind evolves_frame (keeps_requireProcessingParts evolves_frame _ _ _ _) ?_
  intro s q h
  obtain ⟨rfl, -, hcompile, hresources, -, -⟩ := requireProcessingParts_eq_ok h
  refine .andThen evolves_frame (evolves_arranging.declareProcessingInput _ _ _ _) ?_
  intro _ q₁ _ hq₁
  refine .andThen evolves_frame (evolves_editSourceSet _ fun _ => rfl) ?_
  intro _ q₂ _ hq₂
  refine .andThen evolves_frame (evolves_extendConfiguration _ _) ?_
  intro _ q₃ _ hq₃
  refine .andThen evolves_frame (evolves_registerProcessingTask _ _ _ _ _) ?_
  intro _ q₄ h₄ hq₄
  refine .andThen evolves_frame (evolves_addDependency _ _) ?_
  intro _ q₅ _ hq₅
  -- the tasks of the derived source set were there from the start, and the processing task is there by now
  have hq : Evolves q q₅ := hq₁.trans (hq₂.trans (hq₃.trans (hq₄.trans hq₅)))
  have htask := hq₅.mem_tasks_names (mem_of_registerProcessingTask h₄)
  refine .andThen evolves_frame (evolves_dependsOn (hq.mem_tasks_names hcompile) htask) ?_
  intro _ q₆ _ hq₆
  refine .bind evolves_frame ?_ fun _ _ _ => .of_pure evolves_frame _ _
  exact evolves_dependsOn (hq₆.mem_tasks_names (hq.mem_tasks_names hresources)) (hq₆.mem_tasks_names htask)

end ConfigM

end BuildGraph

/-
  BuildGraph.Proofs.Script.Additions: which source sets and tasks an action adds.

  What an action may create is told by the action alone: the source sets it creates
  (`Action.createdSourceSets`), the tasks of these, and the tasks it registers itself
  (`Action.registeredTasks`). However far it comes, it adds nothing else.

  - `adds_tending`: all that creates nothing adds nothing.
  - `Action.run_adds`: an action adds only what it creates.
-/

import BuildGraph.Proofs.Script.Action

namespace BuildGraph

open Operation SourceSetName

namespace Project

/-! ## Adding -/

/-- Of source sets and tasks, `q` has in addition to those of `p` at most the given ones and the tasks of the given
    source sets. -/
structure Adds (created registered : List String) (p q : Project) : Prop where
  sourceSets : ∀ name ∈ q.sourceSets.names, name ∈ p.sourceSets.names ∨ name ∈ created
  tasks : ∀ name ∈ q.tasks.names,
    name ∈ p.tasks.names ∨ name ∈ registered ∨ ∃ s ∈ created, name ∈ SourceSetName.tasks s

variable {created registered : List String} {p q : Project}

theorem adds_frame : Frame (Adds created registered) where
  refl _ := ⟨fun _ => .inl, fun _ => .inl⟩
  trans h h' := by
    refine ⟨fun name hname => ?_, fun name hname => ?_⟩
    · exact (h'.sourceSets name hname).elim (h.sourceSets name) .inr
    · exact (h'.tasks name hname).elim (h.tasks name) .inr

theorem Adds.of_names (hs : q.sourceSets.names = p.sourceSets.names) (ht : q.tasks.names = p.tasks.names) :
    Adds created registered p q := ⟨fun _ h => .inl (hs ▸ h), fun _ h => .inl (ht ▸ h)⟩

theorem adds_onConfigurations (f : Configurations → Except ConfigError Configurations) (p : Project) :
    Keeps (Adds created registered) (ConfigM.onConfigurations f) p :=
  (ConfigM.configurationsOnly_onConfigurations f).imp fun _ h =>
    .of_names (congrArg _ h.sourceSets_eq) (congrArg _ h.tasks_eq)

theorem adds_createConfiguration (name : String) (setup : List Configurations.Setup) (p : Project) :
    Keeps (Adds created registered) (ConfigM.createConfiguration name setup) p :=
  (ConfigM.configurationsOnly_createConfiguration name setup).imp fun _ h =>
    .of_names (congrArg _ h.sourceSets_eq) (congrArg _ h.tasks_eq)

theorem adds_updateSourceSet (name : String) (f : SourceSet → SourceSet) (p : Project) :
    Keeps (Adds created registered) (ConfigM.onSourceSets (·.update name f)) p :=
  ConfigM.keeps_updateSourceSet adds_frame name fun _ => .of_names rfl rfl

theorem adds_updateTask (p : Project) (name : String) {f : Task → Task} (hf : ∀ t, (f t).name = t.name) :
    Adds created registered p { p with tasks := p.tasks.update name f } := .of_names rfl (Tasks.names_update hf)

theorem adds_dependsOn (dependent dependency : String) (p : Project) :
    Keeps (Adds created registered) (ConfigM.dependsOn dependent dependency) p :=
  .of_eq_ok (ConfigM.onTasks_ok rfl) (.of_names rfl rfl)

/-- What creates nothing adds nothing. -/
theorem adds_tending : Tending (Adds created registered) where
  toFrame := adds_frame
  createConfiguration := adds_createConfiguration
  extendConfiguration _ _ := adds_onConfigurations _
  addDependency _ _ := adds_onConfigurations _
  editConfiguration _ _ := adds_onConfigurations _
  editSourceSet name _ _ _ _ _ := adds_updateSourceSet name _ _
  mark p name := adds_updateTask p name fun _ => rfl
  body p name _ := adds_updateTask p name fun _ => rfl
  resolve _ _ _ := .of_names rfl rfl
  supply _ _ _ := .of_names rfl rfl
  values _ _ _ _ := .of_names rfl rfl
  reshape name _ _ _ _ := adds_updateSourceSet name _ _
  wait p name _ := adds_updateTask p name fun _ => rfl
  dependsOn _ _ := adds_dependsOn _ _ _

/-! ## Creating -/

theorem adds_registerTask {name : String} (h : name ∈ registered ∨ ∃ s ∈ created, name ∈ SourceSetName.tasks s)
    (body : TaskBody) (cs : List Configurator) (p : Project) :
    Keeps (Adds created registered) (ConfigM.registerTask name body cs) p := by
  refine ConfigM.keeps_onTasks adds_frame fun r hr => ⟨fun _ => .inl, fun other hother => ?_⟩
  have hother : other ∈ p.tasks.names ++ [name] := Tasks.names_of_register hr ▸ hother
  rcases List.mem_append.mp hother with hother | hother
  · exact .inl hother
  · cases List.mem_singleton.mp hother
    exact .inr h

theorem adds_registerSourceSet {name : String} (h : name ∈ created) {r : SourceSets} (hr : r.names = p.sourceSets.names)
    (u : UnitId) : Adds created registered p { p with sourceSets := r.register name u } := by
  refine ⟨fun other hother => ?_, fun _ => .inl⟩
  have hother : other ∈ p.sourceSets.names ++ [name] := hr ▸ SourceSets.names_register r name u ▸ hother
  rcases List.mem_append.mp hother with hother | hother
  · exact .inl hother
  · cases List.mem_singleton.mp hother
    exact .inr h

theorem adds_insert {name : String} (h : name ∈ created) (p : Project) :
    Keeps (Adds created registered) (ConfigM.onSourceSets (·.insert (.conventional name))) p := by
  refine ConfigM.keeps_onSourceSets adds_frame fun r hr => ?_
  obtain ⟨-, rfl⟩ := SourceSets.insert_eq_ok hr
  exact adds_registerSourceSet h (SourceSets.names_layOut ..) _

theorem adds_registerSourceSetTasks {name : String} (h : name ∈ created) (u : UnitId) (p : Project) :
    Keeps (Adds created registered) (ConfigM.registerSourceSetTasks name u) p :=
  ConfigM.keeps_registerSourceSetTasks adds_frame (fun _ ht _ _ => adds_registerTask (.inr ⟨name, h, ht⟩) _)
    adds_dependsOn u p

theorem adds_createSourceSet {name : String} (h : name ∈ created) (p : Project) :
    Keeps (Adds created registered) (ConfigM.createSourceSet name) p :=
  ConfigM.keeps_createSourceSet adds_frame adds_createConfiguration (fun _ _ => .of_names rfl rfl)
    (adds_registerSourceSetTasks h) (fun _ u => adds_registerSourceSet h rfl u) p

theorem adds_registerProcessingTask {kind : ProcessingKind} (h : kind.taskName ∈ registered) (input classpath : String)
    (roots : FileCollection) (outputs : ProcessingOutputs) (p : Project) :
    Keeps (Adds created registered) (ConfigM.registerProcessingTask kind input classpath roots outputs) p :=
  ConfigM.keeps_registerProcessingTask adds_frame (fun _ => adds_registerTask (.inl h) _) (fun _ _ _ => .of_names rfl rfl)
    input classpath roots outputs p

end Project

/-! ## Actions -/

/-- The source sets that an action creates if it succeeds. -/
def Action.createdSourceSets : Action → List String
  | .sourceSet (.create name) => [name]
  | .sourceSet (.insert name) => [name]
  | .sourceSet (.derive name _) => [name]
  | .processing .javaConventions => [main, test]
  | _ => []

/-- The tasks that an action registers or wires if it succeeds, but for those of the source sets it creates. -/
def Action.registeredTasks : Action → List String
  | .task (.register name _) => [name]
  | .processing (.mainClassTask _) => [ConfigM.mainClassTask]
  | .processing (.wire kind _ _ _ _) => [kind.taskName]
  | _ => []

open Project

theorem Action.creationKeeps_adds (a : Action) : a.CreationKeeps (Adds a.createdSourceSets a.registeredTasks) := by
  cases a with
  | sourceSet a =>
    cases a with
    | create name => exact adds_createSourceSet (List.mem_singleton_self name)
    | insert name => exact adds_insert (List.mem_singleton_self name)
    | derive name existing => exact adds_createSourceSet (List.mem_singleton_self name)
    | setClasspath sourceSet which files => exact adds_updateSourceSet sourceSet _
    | _ => trivial
  | task a =>
    cases a with
    | register name setup => exact adds_registerTask (.inl (List.mem_singleton_self name)) _
    | _ => trivial
  | processing a =>
    cases a with
    | javaConventions => exact ⟨adds_createSourceSet (.head _), adds_createSourceSet (.tail _ (.head _))⟩
    | mainClassTask mainClass => exact adds_registerTask (.inl (List.mem_singleton_self _)) _
    | wire kind derived input classpath outputs =>
      exact adds_tending.wireProcessingTask (adds_registerProcessingTask (List.mem_singleton_self _) input classpath)
        adds_dependsOn derived
    | _ => trivial
  | _ => trivial

/-- However far an action comes, it adds only what it creates. -/
theorem Action.run_adds (plugins : Plugins) (a : Action) (w : Workspace) :
    Keeps (Workspace.On (Adds a.createdSourceSets a.registeredTasks)) (a.run plugins) w :=
  a.run_tends adds_tending plugins a.creationKeeps_adds w

end BuildGraph

/-
  BuildGraph.Proofs.Project.Basic: what the basic operations on a project give and leave.
-/

import BuildGraph.Project.Basic
import BuildGraph.Proofs.Operation

namespace BuildGraph.ConfigM

open Operation

variable {p q : Project} {e : ConfigError}

theorem ofExcept_eq_ok {α : Type} {r : Except ConfigError α} {a : α} (h : ofExcept r p = .ok a q) :
    r = .ok a ∧ q = p := by
  cases r with
  | ok b =>
    cases h
    exact ⟨rfl, rfl⟩
  | error e => cases h

/-- What follows a lookup that succeeds goes on with what was found. -/
theorem ofExcept_bind_ok {α β : Type} {r : Except ConfigError α} {f : α → ConfigM β} {b : β}
    (h : (ofExcept r >>= f) p = .ok b q) : ∃ a, r = .ok a ∧ f a p = .ok b q := by
  cases r with
  | ok a => exact ⟨a, rfl, h⟩
  | error e => cases h

theorem ofExcept_bind_of_ok {α β : Type} {r : Except ConfigError α} {f : α → ConfigM β} {a : α} (h : r = .ok a) :
    (ofExcept r >>= f) p = f a p := by
  rw [h]
  rfl

theorem ofExcept_bind_of_error {α β : Type} {r : Except ConfigError α} {f : α → ConfigM β} {e : ConfigError}
    (h : r = .error e) : (ofExcept r >>= f) p = .error e p := by
  rw [h]
  rfl

/-! ## Changing one registry -/

section sourceSets

variable {f : SourceSets → Except ConfigError SourceSets} {r : SourceSets}

theorem onSourceSets_ok (h : f p.sourceSets = .ok r) : onSourceSets f p = .ok ⟨⟩ { p with sourceSets := r } := by
  rw [onSourceSets, h]

theorem onSourceSets_error (h : f p.sourceSets = .error e) : onSourceSets f p = .error e p := by rw [onSourceSets, h]

theorem onSourceSets_eq_ok {u : Unit} (h : onSourceSets f p = .ok u q) :
    ∃ r, f p.sourceSets = .ok r ∧ q = { p with sourceSets := r } := by
  cases hr : f p.sourceSets with
  | ok r =>
    rw [onSourceSets_ok hr] at h
    cases h
    exact ⟨r, rfl, rfl⟩
  | error e =>
    rw [onSourceSets_error hr] at h
    cases h

theorem onSourceSets_eq_error (h : onSourceSets f p = .error e q) : f p.sourceSets = .error e ∧ q = p := by
  cases hr : f p.sourceSets with
  | ok r =>
    rw [onSourceSets_ok hr] at h
    cases h
  | error e' =>
    rw [onSourceSets_error hr] at h
    cases h
    exact ⟨rfl, rfl⟩

end sourceSets

section configurations

variable {f : Configurations → Except ConfigError Configurations} {r : Configurations}

theorem onConfigurations_ok (h : f p.configurations = .ok r) :
    onConfigurations f p = .ok ⟨⟩ { p with configurations := r } := by rw [onConfigurations, h]

theorem onConfigurations_error (h : f p.configurations = .error e) : onConfigurations f p = .error e p := by
  rw [onConfigurations, h]

theorem onConfigurations_eq_ok {u : Unit} (h : onConfigurations f p = .ok u q) :
    ∃ r, f p.configurations = .ok r ∧ q = { p with configurations := r } := by
  cases hr : f p.configurations with
  | ok r =>
    rw [onConfigurations_ok hr] at h
    cases h
    exact ⟨r, rfl, rfl⟩
  | error e =>
    rw [onConfigurations_error hr] at h
    cases h

theorem onConfigurations_eq_error (h : onConfigurations f p = .error e q) : f p.configurations = .error e ∧ q = p := by
  cases hr : f p.configurations with
  | ok r =>
    rw [onConfigurations_ok hr] at h
    cases h
  | error e' =>
    rw [onConfigurations_error hr] at h
    cases h
    exact ⟨rfl, rfl⟩

/-- A configuration that was created was new, and its set-up succeeded. -/
theorem createConfiguration_eq_ok {name : String} {setup : List Configurations.Setup} {u : Unit}
    (h : createConfiguration name setup p = .ok u q) :
    ∃ r, p.configurations.declare name = .ok r ∧ Configurations.runSetup name setup r = (.ok (), q.configurations) := by
  unfold createConfiguration Configurations.create at h
  cases hd : p.configurations.declare name with
  | error e =>
    simp only [hd] at h
    cases h
  | ok r =>
    simp only [hd] at h
    cases hr : Configurations.runSetup name setup r with
    | mk verdict s =>
      rw [hr] at h
      cases verdict with
      | error e => cases h
      | ok v =>
        cases h
        exact ⟨r, rfl, hr⟩

/-- Creating a configuration leaves what its set-up made of the registry. -/
theorem after_createConfiguration (name : String) (setup : List Configurations.Setup) :
    after (createConfiguration name setup) p =
      { p with configurations := (p.configurations.create name setup).2 } := by
  unfold after createConfiguration
  cases h : p.configurations.create name setup with
  | mk verdict r =>
    cases verdict <;> rfl

end configurations

section tasks

variable {f : Tasks → Except ConfigError Tasks} {r : Tasks}

theorem onTasks_ok (h : f p.tasks = .ok r) : onTasks f p = .ok ⟨⟩ { p with tasks := r } := by rw [onTasks, h]

theorem onTasks_error (h : f p.tasks = .error e) : onTasks f p = .error e p := by rw [onTasks, h]

theorem onTasks_eq_ok {u : Unit} (h : onTasks f p = .ok u q) : ∃ r, f p.tasks = .ok r ∧ q = { p with tasks := r } := by
  cases hr : f p.tasks with
  | ok r =>
    rw [onTasks_ok hr] at h
    cases h
    exact ⟨r, rfl, rfl⟩
  | error e =>
    rw [onTasks_error hr] at h
    cases h

theorem onTasks_eq_error (h : onTasks f p = .error e q) : f p.tasks = .error e ∧ q = p := by
  cases hr : f p.tasks with
  | ok r =>
    rw [onTasks_ok hr] at h
    cases h
  | error e' =>
    rw [onTasks_error hr] at h
    cases h
    exact ⟨rfl, rfl⟩

theorem registerTask_ok {name : String} {body : TaskBody} {cs : List Configurator}
    (h : p.tasks.register name body cs = .ok r) : registerTask name body cs p = .ok ⟨⟩ { p with tasks := r } :=
  onTasks_ok h

theorem registerTask_error {name : String} {body : TaskBody} {cs : List Configurator}
    (h : p.tasks.register name body cs = .error e) : registerTask name body cs p = .error e p := onTasks_error h

end tasks

/-! ## What the basic operations keep -/

section

variable {R : Project → Project → Prop} (hR : Frame R)

include hR

theorem keeps_ofExcept {α : Type} (r : Except ConfigError α) (p : Project) : Keeps R (ofExcept r) p := by
  cases r with
  | ok a => exact .of_pure hR a p
  | error e => exact .of_throw hR e p

theorem keeps_onSourceSets {f : SourceSets → Except ConfigError SourceSets}
    (h : ∀ r, f p.sourceSets = .ok r → R p { p with sourceSets := r }) : Keeps R (onSourceSets f) p := by
  cases hr : f p.sourceSets with
  | ok r => exact .of_eq_ok (onSourceSets_ok hr) (h r hr)
  | error e => exact .of_eq_error (onSourceSets_error hr) (hR.refl p)

theorem keeps_onConfigurations {f : Configurations → Except ConfigError Configurations}
    (h : ∀ r, f p.configurations = .ok r → R p { p with configurations := r }) : Keeps R (onConfigurations f) p := by
  cases hr : f p.configurations with
  | ok r => exact .of_eq_ok (onConfigurations_ok hr) (h r hr)
  | error e => exact .of_eq_error (onConfigurations_error hr) (hR.refl p)

theorem keeps_onTasks {f : Tasks → Except ConfigError Tasks}
    (h : ∀ r, f p.tasks = .ok r → R p { p with tasks := r }) : Keeps R (onTasks f) p := by
  cases hr : f p.tasks with
  | ok r => exact .of_eq_ok (onTasks_ok hr) (h r hr)
  | error e => exact .of_eq_error (onTasks_error hr) (hR.refl p)

/-- Changing a source set by its name changes what was laid out for it. -/
theorem keeps_updateSourceSet (name : String) {f : SourceSet → SourceSet}
    (h : ∀ u, R p { p with sourceSets := p.sourceSets.updateUnit u f }) :
    Keeps R (onSourceSets (·.update name f)) p := by
  refine keeps_onSourceSets hR ?_
  intro r hr
  unfold SourceSets.update at hr
  split at hr
  · rename_i u _
    cases hr
    exact h u
  · cases hr

end

/-! ## Leaving the other registries alone -/

/-- Nothing changes but the configurations. -/
abbrev ConfigurationsOnly (p q : Project) : Prop := q = { p with configurations := q.configurations }

theorem configurationsOnly_frame : Frame ConfigurationsOnly := by
  refine ⟨fun _ => rfl, fun {p q r} h h' => h'.trans ?_⟩
  rw [h]

theorem ConfigurationsOnly.sourceSets_eq (h : ConfigurationsOnly p q) : q.sourceSets = p.sourceSets := by rw [h]

theorem ConfigurationsOnly.tasks_eq (h : ConfigurationsOnly p q) : q.tasks = p.tasks := by rw [h]

theorem configurationsOnly_onConfigurations (f : Configurations → Except ConfigError Configurations) :
    Keeps ConfigurationsOnly (onConfigurations f) p := keeps_onConfigurations configurationsOnly_frame fun _ _ => rfl

theorem configurationsOnly_createConfiguration (name : String) (setup : List Configurations.Setup) :
    Keeps ConfigurationsOnly (createConfiguration name setup) p := by
  unfold Keeps
  rw [after_createConfiguration]

/-- Nothing changes but the tasks. -/
abbrev TasksOnly (p q : Project) : Prop := q = { p with tasks := q.tasks }

theorem tasksOnly_frame : Frame TasksOnly := by
  refine ⟨fun _ => rfl, fun {p q r} h h' => h'.trans ?_⟩
  rw [h]

theorem TasksOnly.sourceSets_eq (h : TasksOnly p q) : q.sourceSets = p.sourceSets := by rw [h]

theorem TasksOnly.configurations_eq (h : TasksOnly p q) : q.configurations = p.configurations := by rw [h]

theorem tasksOnly_onTasks (f : Tasks → Except ConfigError Tasks) : Keeps TasksOnly (onTasks f) p :=
  keeps_onTasks tasksOnly_frame fun _ _ => rfl

end BuildGraph.ConfigM

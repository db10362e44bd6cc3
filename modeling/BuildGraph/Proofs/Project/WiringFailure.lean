/-
  BuildGraph.Proofs.Project.WiringFailure: what wiring a processing task leaves behind when it fails.

  What was done before an error stays done. But wiring looks up all it was asked to work with before it changes
  anything: first the source sets and the tasks, then the processing classpath. After that it can only fail where
  an extension is refused, the name of the processing task is taken, or a configuration of the derived source set
  is missing, and the configurations of a source set that was created are there.

  - `wireProcessingTask_error`: either nothing has changed, or which of these it was.
  - `wireProcessingTask_failure`: what that says of each error.
-/

import BuildGraph.Proofs.Project.WiringEffect
import BuildGraph.Proofs.Script.Reachable

namespace BuildGraph

open Operation Project SourceSetName

namespace ConfigM

variable {p q : Project} {e : ConfigError} {kind : ProcessingKind} {derived input classpath : String}
  {outputs : ProcessingOutputs}

/-! ## The parts of wiring -/

theorem requireProcessingParts_error (h : requireProcessingParts kind derived input p = .error e q) : q = p :=
  (keeps_requireProcessingParts (R := fun p q => q = p) ⟨fun _ => rfl, fun h h' => h'.trans h⟩ kind derived input
    p).of_error h

theorem addDependency_error {configuration : String} {d : Dependency} (h : addDependency configuration d p = .error e q) :
    configuration ∉ p.configurations.names ∧ e = .configurationNotFound configuration ∧ q = p := by
  obtain ⟨hr, rfl⟩ := onConfigurations_eq_error h
  obtain ⟨hmissing, rfl⟩ := Configurations.update_error hr
  exact ⟨hmissing, rfl, rfl⟩

theorem mem_of_addDependency {configuration : String} {d : Dependency} {u : Unit}
    (h : addDependency configuration d p = .ok u q) : configuration ∈ p.configurations.names := by
  obtain ⟨r, hr, -⟩ := onConfigurations_eq_ok h
  exact Configurations.mem_of_update hr

/-- The inputs are declared all or none. -/
theorem declareProcessingInput_error (h : declareProcessingInput kind input classpath p = .error e q) : q = p := by
  unfold declareProcessingInput at h
  cases kind with
  | application => exact (addDependency_error h).2.2
  | tests main =>
    rcases bind_error h with h | ⟨_, q₁, h₁, h₂⟩
    · exact (addDependency_error h).2.2
    · -- the second is declared where the first was
      have hmem := ((evolves_addDependency _ _).of_ok h₁).mem_configurations_names (mem_of_addDependency h₁)
      exact absurd hmem (addDependency_error h₂).1

theorem mem_of_declareProcessingInput {u : Unit} (h : declareProcessingInput kind input classpath p = .ok u q) :
    classpath ∈ p.configurations.names := by
  unfold declareProcessingInput at h
  cases kind with
  | application => exact mem_of_addDependency h
  | tests main =>
    obtain ⟨_, q₁, h₁, -⟩ := bind_ok h
    exact mem_of_addDependency h₁

theorem registerProcessingTask_error {roots : FileCollection}
    (h : registerProcessingTask kind input classpath roots outputs p = .error e q) : e = .duplicateTaskName kind.taskName := by
  unfold registerProcessingTask at h
  rw [bind_of_ok (get_apply p)] at h
  cases kind with
  | _ =>
    rcases bind_error h with h | ⟨_, q₁, -, h⟩
    · obtain ⟨hr, -⟩ := onTasks_eq_error h
      exact (Tasks.register_error hr).2
    · cases h

/-! ## Wiring -/

/-- A processing task is not wired, and nothing has changed; or the processing classpath was found, and what was refused
    after that is one of these. -/
theorem wireProcessingTask_error (h : wireProcessingTask kind derived input classpath outputs p = .error e q) :
    q = p ∨ classpath ∈ p.configurations.names ∧
      (e = .cyclicExtension (compileClasspath derived) classpath ∨ e = .duplicateTaskName kind.taskName ∨
        ∃ name ∈ [compileClasspath derived, implementation derived],
          name ∉ p.configurations.names ∧ e = .configurationNotFound name) := by
  unfold wireProcessingTask at h
  rcases bind_error h with h | ⟨s, p', hparts, h⟩
  · exact .inl (requireProcessingParts_error h)
  obtain ⟨hsame, -, -, -, hs, -⟩ := requireProcessingParts_eq_ok hparts
  rw [hsame] at h
  rcases bind_error h with h | ⟨_, q₁, h₁, h⟩
  · exact .inl (declareProcessingInput_error h)
  have hq₁ := (evolves_arranging.declareProcessingInput _ _ _ _).of_ok h₁
  have hclasspath := mem_of_declareProcessingInput h₁
  refine .inr ⟨hclasspath, ?_⟩
  rcases bind_error h with h | ⟨_, q₂, h₂, h⟩
  · -- the input was found before, and declaring dependencies takes no source set away
    have hinput : q₁.sourceSets.find? input = some s := by
      rw [declareProcessingInput_ok h₁]
      exact SourceSets.get_eq_ok hs
    obtain ⟨r, hr⟩ := SourceSets.exists_update hinput _
    cases (onSourceSets_eq_error h).1.symm.trans hr
  have hq₂ : Evolves p q₂ := hq₁.trans ((evolves_editSourceSet _ (by intro s; rfl)).of_ok h₂)
  rcases bind_error h with h | ⟨_, q₃, h₃, h⟩
  · obtain ⟨hr, -⟩ := onConfigurations_eq_error h
    rcases Configurations.extend_error hr with ⟨hmissing, rfl⟩ | ⟨hmissing, -⟩ | rfl
    · exact .inr (.inr ⟨_, by simp, fun hm => hmissing (hq₂.mem_configurations_names hm), rfl⟩)
    · exact absurd (hq₂.mem_configurations_names hclasspath) hmissing
    · exact .inl rfl
  have hq₃ : Evolves p q₃ := hq₂.trans ((evolves_extendConfiguration _ _).of_ok h₃)
  rcases bind_error h with h | ⟨_, q₄, h₄, h⟩
  · exact .inr (.inl (registerProcessingTask_error h))
  have hq₄ : Evolves p q₄ := hq₃.trans ((evolves_registerProcessingTask _ _ _ _ _).of_ok h₄)
  rcases bind_error h with h | ⟨_, q₅, -, h⟩
  · obtain ⟨hmissing, rfl, -⟩ := addDependency_error h
    exact .inr (.inr ⟨_, by simp, fun hm => hmissing (hq₄.mem_configurations_names hm), rfl⟩)
  -- dependencies between tasks are never refused
  cases h

/-- The compile classpath and the implementation of a source set that was created are there. -/
theorem mem_of_createSourceSet {name : String} {u : Unit} (h : createSourceSet name p = .ok u q) :
    compileClasspath name ∈ q.configurations.names ∧ implementation name ∈ q.configurations.names := by
  refine ⟨?_, (built_of_createSourceSet h).implementation⟩
  obtain ⟨q₁, q₂, h₁, -, h₂, -, rfl⟩ := createSourceSet_ok h
  obtain ⟨_, _, _, q₃, -, -, -, h₃, h₄⟩ := createSourceSetConfigurations_ok h₁
  have hmem : compileClasspath name ∈ q₃.configurations.names := by
    rw [← after_of_ok h₃]
    exact mem_after_createConfiguration _ _ _
  have hq : Evolves q₃ q₂ :=
    ((evolves_createConfiguration _ _).of_ok h₄).trans
      (.trans (.single (.sourceSets (.layOut _))) ((evolves_registerSourceSetTasks _ _).of_ok h₂))
  exact hq.mem_configurations_names hmem

end ConfigM

namespace Project

variable {p q : Project} {e : ConfigError} {kind : ProcessingKind} {derived input classpath : String}
  {outputs : ProcessingOutputs}

/-- When a source set, a task or the processing classpath is missing, or a task has another type, nothing has changed.
    If the derived source set was created at some time, whatever it and the rest went through since, something may
    have changed only when the extension is refused or the name of the processing task is taken. -/
theorem wireProcessingTask_failure (hfail : ConfigM.wireProcessingTask kind derived input classpath outputs p = .error e q) :
    ((∃ name, e = .sourceSetNotFound name) ∨ (∃ name, e = .taskNotFound name) ∨
        (∃ name expected found, e = .taskTypeMismatch name expected found) ∨ e = .configurationNotFound classpath →
      q = p) ∧
    ((∃ p₀ p₁, ConfigM.createSourceSet derived p₀ = .ok ⟨⟩ p₁ ∧ Evolves p₁ p) → q ≠ p →
      e = .cyclicExtension (compileClasspath derived) classpath ∨ e = .duplicateTaskName kind.taskName) := by
  rcases ConfigM.wireProcessingTask_error hfail with hsame | ⟨hclasspath, rfl | rfl | ⟨name, hname, hmissing, rfl⟩⟩
  · exact ⟨fun _ => hsame, fun _ hne => absurd hsame hne⟩
  · exact ⟨by simp, fun _ _ => .inl rfl⟩
  · exact ⟨by simp, fun _ _ => .inr rfl⟩
  · constructor
    · rintro (⟨_, he⟩ | ⟨_, he⟩ | ⟨_, _, _, he⟩ | he) <;> cases he
      exact absurd hclasspath hmissing
    · rintro ⟨p₀, p₁, hcreated, hp⟩ -
      obtain ⟨hcompile, himplementation⟩ := ConfigM.mem_of_createSourceSet hcreated
      have hthere : ∀ n ∈ [compileClasspath derived, implementation derived], n ∈ p.configurations.names := by
        simp [hp.mem_configurations_names hcompile, hp.mem_configurations_names himplementation]
      exact absurd (hthere name hname) hmissing

/-- The compile classpath of the derived source set cannot serve as the processing classpath: when that is refused, the
    inputs are declared on it. If the processing classpath is missing, nothing has changed. -/
theorem wireProcessingTask_failure_of_own_classpath :
    ∃ p₀ p q r e, ConfigM.createSourceSet "aot" p₀ = .ok ⟨⟩ p ∧
      ConfigM.wireProcessingTask (.tests "main") "aot" "test" "aotCompileClasspath"
        ⟨.project ⟨"sources"⟩, .project ⟨"resources"⟩, .project ⟨"classes"⟩⟩ p = .error e q ∧ q ≠ p ∧
      (e = .cyclicExtension (compileClasspath "aot") "aotCompileClasspath" ∨
        e = .duplicateTaskName (ProcessingKind.tests "main").taskName) ∧
      ConfigM.wireProcessingTask (.tests "main") "aot" "test" "processTestAotClasspath"
        ⟨.project ⟨"sources"⟩, .project ⟨"resources"⟩, .project ⟨"classes"⟩⟩ p =
          .error (.configurationNotFound "processTestAotClasspath") r ∧ r = p := by
  obtain ⟨p₀, p, q, r, e, hcreated, hcycle, hbefore, hafter, hmissing⟩ : ∃ p₀ p q r e,
      ConfigM.createSourceSet "aot" p₀ = .ok ⟨⟩ p ∧
      ConfigM.wireProcessingTask (.tests "main") "aot" "test" "aotCompileClasspath"
        ⟨.project ⟨"sources"⟩, .project ⟨"resources"⟩, .project ⟨"classes"⟩⟩ p = .error e q ∧
      p.configurations.declaredOn "aotCompileClasspath" = [] ∧
      q.configurations.declaredOn "aotCompileClasspath" = [.files (.output "main"), .files (.output "test")] ∧
      ConfigM.wireProcessingTask (.tests "main") "aot" "test" "processTestAotClasspath"
        ⟨.project ⟨"sources"⟩, .project ⟨"resources"⟩, .project ⟨"classes"⟩⟩ p =
          .error (.configurationNotFound "processTestAotClasspath") r :=
    ⟨(Session.performAll [Plugin.java.step] (Session.start (.ofSettings {}))).2.workspace.project, _, _, _, _,
      rfl, rfl, rfl, rfl, rfl⟩
  have hne : q ≠ p := by
    rintro rfl
    rw [hbefore] at hafter
    cases hafter
  exact ⟨p₀, p, q, r, e, hcreated, hcycle, hne, (wireProcessingTask_failure hcycle).2 ⟨p₀, p, hcreated, .refl⟩ hne,
    hmissing, (wireProcessingTask_failure hmissing).1 (.inr (.inr (.inr rfl)))⟩

end Project

end BuildGraph

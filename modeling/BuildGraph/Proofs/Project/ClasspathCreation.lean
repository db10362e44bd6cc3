/-
  BuildGraph.Proofs.Project.ClasspathCreation: the classpath of a processing task is created as a whole or not at all.

  Creating a configuration is not undone if its set-up fails. The classpath of a processing task is set up to extend
  what another configuration extends, which is there; it is new itself, so nothing leads back to it. So its set-up
  does not fail, and whatever is refused is refused before anything is done.

  - `Reachable.createProcessingClasspath_atomic`: it is created, or nothing changes; which of these, and why.
-/

import BuildGraph.Proofs.Project.Creation

namespace BuildGraph

open Operation Project SourceSetName

namespace ConfigM

variable {p : Project} {task sourceSet : String}

/-- A processing classpath extends what something else extends, so that is there. -/
theorem mem_of_processingClasspathSetup {r : Configurations} (hr : r.Sound) {base parent : String}
    {attributes : AttributeSet}
    (h : .extendsFrom parent ∈ processingClasspathSetup task (r.graph.successors base) attributes) :
    parent ∈ r.names := by
  have hparent : parent ∈ r.graph.successors base := by simpa [processingClasspathSetup] using h
  exact hr.target base parent (Digraph.mem_successors.mp hparent)

theorem createProcessingClasspath_of_sourceSet_missing (h : sourceSet ∉ p.sourceSets.names) :
    createProcessingClasspath task sourceSet p = .error (.sourceSetNotFound sourceSet) p := by
  unfold createProcessingClasspath
  rw [bind_of_ok (get_apply p), ofExcept_bind_of_error (SourceSets.get_of_not_mem h)]

theorem createProcessingClasspath_of_base_missing (hs : p.Sound) (hset : sourceSet ∈ p.sourceSets.names)
    (h : runtimeClasspath sourceSet ∉ p.configurations.names) :
    createProcessingClasspath task sourceSet p = .error (.configurationNotFound (runtimeClasspath sourceSet)) p := by
  obtain ⟨s, hfind⟩ := hs.sourceSets.exists_find?_iff.mpr hset
  obtain rfl : s.name = sourceSet := hs.sourceSets.name_of_find? hfind
  unfold createProcessingClasspath
  rw [bind_of_ok (get_apply p), ofExcept_bind_of_ok (SourceSets.get_of_find? hfind), bind_of_ok (get_apply p),
    ofExcept_bind_of_error (Configurations.get_of_not_mem h)]

/-- Once the source set and its runtime classpath are found, all there is to do is to create a configuration. -/
theorem createProcessingClasspath_of_find? (hs : p.Sound) (hset : sourceSet ∈ p.sourceSets.names) {base : Configuration}
    (hbase : p.configurations.find? (runtimeClasspath sourceSet) = some base) :
    createProcessingClasspath task sourceSet p =
      (createConfiguration (task ++ "Classpath") (processingClasspathSetup task
        (p.configurations.graph.successors (runtimeClasspath sourceSet)) base.attributes) >>=
          fun _ => pure (task ++ "Classpath")) p := by
  obtain ⟨s, hfind⟩ := hs.sourceSets.exists_find?_iff.mpr hset
  obtain rfl : s.name = sourceSet := hs.sourceSets.name_of_find? hfind
  have hname : base.name = runtimeClasspath s.name := Configurations.name_of_find? hbase
  have hextends := Configurations.extendsOf_of_mem (Configurations.exists_find?_iff.mp ⟨base, hbase⟩)
  rw [← hname] at hextends ⊢
  unfold createProcessingClasspath
  rw [bind_of_ok (get_apply p), ofExcept_bind_of_ok (SourceSets.get_of_find? hfind), bind_of_ok (get_apply p),
    ofExcept_bind_of_ok (Configurations.get_of_find? hbase), bind_of_ok (get_apply p), ofExcept_bind_of_ok hextends]

end ConfigM

namespace Project

variable {p : Project}

/-- A processing classpath is created, or nothing changes. It is refused only if the source set is missing, or its
    runtime classpath is, or the name is taken. Of the instructions it is set up by none is refused: once those before
    it are carried out, each extension is accepted. -/
theorem Reachable.createProcessingClasspath_atomic (h : p.Reachable) (task sourceSet : String) :
    ((sourceSet ∉ p.sourceSets.names ∧
        ConfigM.createProcessingClasspath task sourceSet p = .error (.sourceSetNotFound sourceSet) p) ∨
      (sourceSet ∈ p.sourceSets.names ∧ runtimeClasspath sourceSet ∉ p.configurations.names ∧
        ConfigM.createProcessingClasspath task sourceSet p =
          .error (.configurationNotFound (runtimeClasspath sourceSet)) p) ∨
      (sourceSet ∈ p.sourceSets.names ∧ runtimeClasspath sourceSet ∈ p.configurations.names ∧
        task ++ "Classpath" ∈ p.configurations.names ∧
        ConfigM.createProcessingClasspath task sourceSet p =
          .error (.duplicateConfigurationName (task ++ "Classpath")) p) ∨
      (sourceSet ∈ p.sourceSets.names ∧ runtimeClasspath sourceSet ∈ p.configurations.names ∧
        task ++ "Classpath" ∉ p.configurations.names ∧
        ∃ q, ConfigM.createProcessingClasspath task sourceSet p = .ok (task ++ "Classpath") q)) ∧
    ∀ base r, p.configurations.find? (runtimeClasspath sourceSet) = some base →
      p.configurations.declare (task ++ "Classpath") = .ok r →
      ∀ before parent rest, ConfigM.processingClasspathSetup task
          (p.configurations.graph.successors (runtimeClasspath sourceSet)) base.attributes =
            before ++ .extendsFrom parent :: rest →
        ∃ s t, Configurations.runSetup (task ++ "Classpath") before r = (.ok (), s) ∧
          s.extend (task ++ "Classpath") parent = .ok t := by
  have hs := h.sound
  have hc := hs.configurations.sound
  refine ⟨?_, fun base r _ hr before parent rest hsetup => ?_⟩
  · by_cases hset : sourceSet ∈ p.sourceSets.names
    swap
    · exact .inl ⟨hset, ConfigM.createProcessingClasspath_of_sourceSet_missing hset⟩
    by_cases hruntime : runtimeClasspath sourceSet ∈ p.configurations.names
    swap
    · exact .inr (.inl ⟨hset, hruntime, ConfigM.createProcessingClasspath_of_base_missing hs hset hruntime⟩)
    obtain ⟨base, hbase⟩ := Configurations.exists_find?_iff.mpr hruntime
    rw [ConfigM.createProcessingClasspath_of_find? hs hset hbase]
    by_cases hname : task ++ "Classpath" ∈ p.configurations.names
    · exact .inr (.inr (.inl ⟨hset, hruntime, hname, bind_of_error (ConfigM.createConfiguration_of_mem hname _)⟩))
    · obtain ⟨q, hq⟩ : ∃ q, ConfigM.createConfiguration (task ++ "Classpath") (ConfigM.processingClasspathSetup task
          (p.configurations.graph.successors (runtimeClasspath sourceSet)) base.attributes) p = .ok ⟨⟩ q :=
        ConfigM.createConfiguration_of_new hc hname fun _ => ConfigM.mem_of_processingClasspathSetup hc
      exact .inr (.inr (.inr ⟨hset, hruntime, hname, q, bind_of_ok hq⟩))
  · have hparents : ∀ other, .extendsFrom other ∈ before ++ .extendsFrom parent :: rest →
        other ∈ p.configurations.names := by
      rw [← hsetup]
      exact fun _ => ConfigM.mem_of_processingClasspathSetup hc
    exact hc.extend_of_declare hr hparents

/-- The classpath of a processing task is not created twice. -/
theorem Reachable.createProcessingClasspath_atomic_of_repetition :
    ∃ p, p.Reachable ∧ ConfigM.createProcessingClasspath "processAot" "main" p =
      .error (.duplicateConfigurationName "processAotClasspath") p := by
  obtain ⟨p, hreachable, hset, hruntime, hname⟩ : ∃ p : Project, p.Reachable ∧ "main" ∈ p.sourceSets.names ∧
      runtimeClasspath "main" ∈ p.configurations.names ∧ "processAot" ++ "Classpath" ∈ p.configurations.names :=
    ⟨_, Session.performAll_reachable {} [Plugin.java.step, .act (.processing (.createClasspath "processAot" "main"))],
      by decide +kernel, by decide +kernel, by decide +kernel⟩
  refine ⟨p, hreachable, ?_⟩
  obtain ⟨⟨hno, -⟩ | ⟨-, hno, -⟩ | ⟨-, -, -, h⟩ | ⟨-, -, hno, -⟩, -⟩ :=
    Reachable.createProcessingClasspath_atomic hreachable "processAot" "main"
  · exact absurd hset hno
  · exact absurd hruntime hno
  · exact h
  · exact absurd hname hno

end Project

end BuildGraph

/-
  BuildGraph.Proofs.Project.Derivation: what deriving a source set changes, and what it leaves as it is.

  A derived source set is created like any other and then given sources and resources of its own. Of what was there
  before, deriving changes one thing: the runtime classpath of the source set it is derived from. If it is refused
  because a source set is missing or there already, nothing has changed.

  - `deriveSourceSet_succeeds`: nothing can go wrong once the source set is created.
  - `Reachable.deriveSourceSet_frame`: what is new, what has changed, and that all else is as it was.
-/

import BuildGraph.Proofs.Project.Creation

namespace BuildGraph

open Operation Outline Project SourceSetName

/-! ## The outline afterwards -/

namespace Outline

variable {o : Outline} {name existing : String} {k : Key}

theorem addSourceSet_of_not_mem (h : k ∉ sourceSetKeys name) : o.addSourceSet name k = o k := by
  simp only [sourceSetKeys, List.mem_cons, List.not_mem_nil, or_false, not_or] at h
  simp [addSourceSet, addSourceSetTasks, addSourceSetConfigurations, configure, set, change, h]

theorem addSourceSet_self :
    o.addSourceSet name (.sourceSet name) = some (.sourceSet (ConfigM.conventionalSourceSet name)) := set_self ..

theorem addSourceSet_compileClasspath : o.addSourceSet name (.configuration (compileClasspath name)) =
    some (.created (compileClasspath name) (ConfigM.compileClasspathSetup name)) := by
  have hne : compileClasspath name ≠ runtimeClasspath name := fun h =>
    absurd (configuration_inj (by decide) (by decide) h).2 (by decide)
  simp [addSourceSet, addSourceSetTasks, addSourceSetConfigurations, configure, set, change, hne]

/-- Deriving leaves alone what is neither new nor the source set derived from. -/
theorem derive_of_not_mem (h : k ∉ sourceSetKeys name) (hk : k ≠ .sourceSet existing) :
    o.derive name existing k = o k := by
  have hname : k ≠ .sourceSet name := fun he => h (he ▸ ConfigM.sourceSet_mem_keys.mpr rfl)
  have hcompile : k ≠ .configuration (compileClasspath name) := fun he =>
    h (he ▸ ConfigM.configuration_mem_keys.mpr (by simp [SourceSetName.configurations, parts, compileClasspath]))
  simp [derive, change, hname, hk, hcompile, addSourceSet_of_not_mem h]

theorem derive_existing (h : existing ≠ name) : o.derive name existing (.sourceSet existing) =
    (o (.sourceSet existing)).map (.onSourceSet fun s =>
      { s with runtimeClasspath := s.runtimeClasspath.add (.output name) }) := by
  have hnew : .sourceSet existing ∉ sourceSetKeys name := fun hm => h (ConfigM.sourceSet_mem_keys.mp hm)
  simp [derive, change, h, addSourceSet_of_not_mem hnew]

theorem derive_self (h : existing ≠ name) : o.derive name existing (.sourceSet name) =
    some (.sourceSet
      { ConfigM.conventionalSourceSet name with
        java := [.project ⟨"build/generated/" ++ name ++ "Sources"⟩]
        resources := [.project ⟨"build/generated/" ++ name ++ "Resources"⟩] }) := by
  simp [derive, change, h.symm, addSourceSet_self, Entry.onSourceSet]

/-- The compile classpath asks for classes and resources of the Java runtime, and for nothing else. -/
theorem derive_compileClasspath (o : Outline) (name existing : String) :
    ∃ c parents, o.derive name existing (.configuration (compileClasspath name)) = some (.configuration c parents) ∧
      c.attributes.entries =
        [(AttributeSet.libraryElementsKey, "classes+resources"), (AttributeSet.usageKey, "java-runtime")] := by
  have hattributes : (ConfigM.requestClassesAndResources ((AttributeSet.empty.set AttributeSet.usageKey "java-api").set
      AttributeSet.libraryElementsKey "classes")).entries =
        [(AttributeSet.libraryElementsKey, "classes+resources"), (AttributeSet.usageKey, "java-runtime")] := by decide
  simp only [derive, change, reduceCtorEq, if_true, if_false, addSourceSet_compileClasspath]
  exact ⟨_, _, rfl, hattributes⟩

end Outline

/-! ## Deriving -/

namespace SourceSets

variable {r : SourceSets} {name : String} {s : SourceSet}

theorem entryOf?_of_find? (h : r.find? name = some s) : r.entryOf? name = some (.sourceSet s) := by
  rw [entryOf?, h]
  rfl

theorem find?_of_entryOf? (h : r.entryOf? name = some (.sourceSet s)) : r.find? name = some s := by
  obtain ⟨t, ht, he⟩ := Option.map_eq_some_iff.mp h
  cases he
  exact ht

end SourceSets

theorem Configurations.find?_of_entryOf? {r : Configurations} {name : String} {c : Configuration}
    {parents : List String} (h : r.entryOf? name = some (.configuration c parents)) : r.find? name = some c := by
  obtain ⟨d, hd, he⟩ := Option.map_eq_some_iff.mp h
  cases he
  exact hd

namespace ConfigM

variable {p q : Project} {name existing : String} {u : Unit}

theorem deriveSourceSet_of_missing (h : existing ∉ p.sourceSets.names) :
    deriveSourceSet name existing p = .error (.sourceSetNotFound existing) p := by
  unfold deriveSourceSet
  rw [bind_of_ok (get_apply p), ofExcept_bind_of_error (SourceSets.get_of_not_mem h)]

theorem deriveSourceSet_of_error {e : ConfigError} (hs : p.Sound) (hset : existing ∈ p.sourceSets.names)
    (hq : createSourceSet name p = .error e q) : deriveSourceSet name existing p = .error e q := by
  obtain ⟨s, hfind⟩ := hs.sourceSets.exists_find?_iff.mpr hset
  unfold deriveSourceSet
  rw [bind_of_ok (get_apply p), ofExcept_bind_of_ok (SourceSets.get_of_find? hfind), bind_of_error hq]

/-- A source set that is there can be changed. -/
theorem updateSourceSet_of_mem {f : SourceSet → SourceSet} (hs : p.Sound) (h : name ∈ p.sourceSets.names)
    (hf : ∀ s, (f s).name = s.name) : ∃ q, onSourceSets (·.update name f) p = .ok ⟨⟩ q ∧ q.Sound ∧
      q.sourceSets.names = p.sourceSets.names ∧ q.configurations = p.configurations := by
  obtain ⟨s, hfind⟩ := hs.sourceSets.exists_find?_iff.mpr h
  obtain ⟨r, hr⟩ := SourceSets.exists_update hfind f
  have hq : onSourceSets (·.update name f) p = .ok ⟨⟩ { p with sourceSets := r } := onSourceSets_ok hr
  refine ⟨_, hq, hs.evolves ((evolves_editSourceSet name hf).of_ok hq), ?_, rfl⟩
  obtain ⟨u, -, rfl⟩ := SourceSets.update_eq_ok hr
  rfl

/-- Nothing can go wrong once the source set is created: all that is changed then is there. -/
theorem deriveSourceSet_succeeds (hs : p.Sound) (hset : existing ∈ p.sourceSets.names)
    (hq : createSourceSet name p = .ok ⟨⟩ q) : ∃ q', deriveSourceSet name existing p = .ok ⟨⟩ q' := by
  have hgains := gains_createSourceSet hs hq
  have hs₁ : q.Sound := hs.evolves ((evolves_createSourceSet name).of_ok hq)
  have hname : name ∈ q.sourceSets.names := (has_sourceSet_iff hs₁).mp (hgains.has (by simp))
  have hexisting : existing ∈ q.sourceSets.names :=
    (has_sourceSet_iff hs₁).mp ((hgains.has_iff _).mpr (.inl ((has_sourceSet_iff hs).mpr hset)))
  have hcompile : compileClasspath name ∈ q.configurations.names := by
    refine has_configuration_iff.mp (hgains.has ?_)
    simp [sourceSetParts, SourceSetName.configurations, parts, compileClasspath]
  obtain ⟨s, hfind⟩ := hs.sourceSets.exists_find?_iff.mpr hset
  unfold deriveSourceSet
  rw [bind_of_ok (get_apply p), ofExcept_bind_of_ok (SourceSets.get_of_find? hfind), bind_of_ok hq]
  refine exists_bind_ok (updateSourceSet_of_mem hs₁ hname fun _ => rfl) fun q₂ h₂ => ?_
  obtain ⟨hs₂, hnames, hc₂⟩ := h₂
  refine exists_bind_ok (updateSourceSet_of_mem hs₂ (hnames ▸ hexisting) fun _ => rfl) fun q₃ h₃ => ?_
  obtain ⟨-, -, hc₃⟩ := h₃
  refine ⟨_, onConfigurations_ok (if_pos ?_)⟩
  rw [hc₃, hc₂]
  exact Configurations.contains_iff.mpr hcompile

end ConfigM

namespace Project

variable {p q : Project} {name existing : String}

theorem outline_deriveSourceSet (hs : p.Sound) (hset : existing ∈ p.sourceSets.names) {u : Unit}
    (hq : ConfigM.deriveSourceSet name existing p = .ok u q) : q.outline = p.outline.derive name existing := by
  have hwhole : ∀ o : Outline, o.Consists [o] := fun o => ⟨by simp, List.pairwise_singleton _ _⟩
  have hdivides : p.Divides [p.outline] := ⟨hs, hwhole _⟩
  exact (hdivides.deriveSourceSet ((ConfigM.has_sourceSet_iff hs).mpr hset) hq).consists.unique (hwhole _)

/-- A derived source set consists of generated sources and resources, and its compile classpath asks for classes and
    resources of the Java runtime. Its output is put at the end of the runtime classpath it is derived for, unless it is
    there. All else that was there is as it was: other source sets, configurations and what they extend, tasks and what
    they depend on. Where a source set is missing, or there already, the project is untouched. -/
theorem Reachable.deriveSourceSet_frame (h : p.Reachable) (name existing : String) :
    (∀ q, ConfigM.deriveSourceSet name existing p = .ok ⟨⟩ q →
      ∃ before c, p.sourceSets.find? existing = some before ∧
        q.sourceSets.find? existing = some
          { before with
            runtimeClasspath :=
              ⟨if before.runtimeClasspath.contains (.output name) then before.runtimeClasspath.elements
                else before.runtimeClasspath.elements ++ [.output name]⟩ } ∧
        q.sourceSets.find? name = some
          { ConfigM.conventionalSourceSet name with
            java := [.project ⟨"build/generated/" ++ name ++ "Sources"⟩]
            resources := [.project ⟨"build/generated/" ++ name ++ "Resources"⟩] } ∧
        q.configurations.find? (compileClasspath name) = some c ∧
        c.attributes.entries =
          [(AttributeSet.libraryElementsKey, "classes+resources"), (AttributeSet.usageKey, "java-runtime")] ∧
        (∀ k, p.outline.Has k → k ≠ .sourceSet existing → q.outline k = p.outline k) ∧ p.Spares q) ∧
    ∀ e q, ConfigM.deriveSourceSet name existing p = .error e q →
      ((∃ missing, e = .sourceSetNotFound missing) ∨ ∃ taken, e = .duplicateSourceSetName taken) → q = p := by
  have hs := h.sound
  refine ⟨fun q hq => ?_, fun e q hq he => ?_⟩
  · obtain ⟨before, q₁, -, -, hget, hcreated, -⟩ := ConfigM.deriveSourceSet_ok hq
    have hbefore := SourceSets.get_eq_ok hget
    have hmem := hs.sourceSets.exists_find?_iff.mp ⟨before, hbefore⟩
    have hfree := (ConfigM.createSourceSet_succeeds_iff hs).mp ⟨q₁, hcreated⟩
    have hne : existing ≠ name := by
      rintro rfl
      exact hfree _ (ConfigM.sourceSet_mem_keys.mpr rfl) ((ConfigM.has_sourceSet_iff hs).mpr hmem)
    have houtline := outline_deriveSourceSet hs hmem hq
    obtain ⟨c, parents, hc, hattributes⟩ := derive_compileClasspath p.outline name existing
    have hbase : q.outline (.sourceSet existing) = some (.sourceSet
        { before with runtimeClasspath := before.runtimeClasspath.add (.output name) }) := by
      have hold : p.outline (.sourceSet existing) = some (.sourceSet before) := SourceSets.entryOf?_of_find? hbefore
      rw [houtline, derive_existing hne, hold]
      rfl
    have hderived := (congrFun houtline (.sourceSet name)).trans (derive_self hne)
    have hcompile := (congrFun houtline (.configuration (compileClasspath name))).trans hc
    refine ⟨before, c, hbefore, SourceSets.find?_of_entryOf? hbase, SourceSets.find?_of_entryOf? hderived,
      Configurations.find?_of_entryOf? hcompile, hattributes, fun k hk hother => ?_,
      (spares_arranging.deriveSourceSet name existing p).of_ok hq⟩
    rw [houtline]
    exact derive_of_not_mem (fun hnew => hfree k hnew hk) hother
  · by_cases hmem : existing ∈ p.sourceSets.names
    swap
    · cases (ConfigM.deriveSourceSet_of_missing hmem).symm.trans hq
      rfl
    cases hcreated : ConfigM.createSourceSet name p with
    | ok _ q₁ =>
      obtain ⟨q', hq'⟩ := ConfigM.deriveSourceSet_succeeds hs hmem hcreated
      cases hq'.symm.trans hq
    | error e' q' =>
      cases (ConfigM.deriveSourceSet_of_error hs hmem hcreated).symm.trans hq
      rcases h.createSourceSet_error hcreated with ⟨-, -, hsame⟩ | ⟨-, made, k, rest, hparts, -, rfl, -⟩
      · exact hsame
      · -- the name that is taken is that of a configuration or a task
        have hk : k ∈ ConfigM.sourceSetParts name := by simp [hparts]
        cases k with
        | sourceSet other => simp [ConfigM.sourceSetParts] at hk
        | configuration other => rcases he with ⟨_, he⟩ | ⟨_, he⟩ <;> cases he
        | task other => rcases he with ⟨_, he⟩ | ⟨_, he⟩ <;> cases he

/-- The source set `aot` is derived from `main` once the Java conventions are there, and not once more. -/
theorem Reachable.deriveSourceSet_frame_of_main :
    ∃ p q s, p.Reachable ∧ ConfigM.deriveSourceSet "aot" "main" p = .ok ⟨⟩ q ∧
      q.sourceSets.find? "main" = some s ∧
      s.runtimeClasspath.elements = [.output "main", .configuration "runtimeClasspath", .output "aot"] ∧
      (∀ k, p.outline.Has k → k ≠ .sourceSet "main" → q.outline k = p.outline k) ∧
      ∃ r, ConfigM.deriveSourceSet "aot" "main" q = .error (.duplicateSourceSetName "aot") r ∧ r = q := by
  obtain ⟨p, q, r, hp, hq, hfirst, hagain, hbefore⟩ : ∃ (p q r : Project), p.Reachable ∧ q.Reachable ∧
      ConfigM.deriveSourceSet "aot" "main" p = .ok ⟨⟩ q ∧
      ConfigM.deriveSourceSet "aot" "main" q = .error (.duplicateSourceSetName "aot") r ∧
      (p.sourceSets.find? "main").map (·.runtimeClasspath.elements) =
        some [.output "main", .configuration "runtimeClasspath"] :=
    ⟨_, _, _, Session.performAll_reachable {} [Plugin.java.step],
      Session.performAll_reachable {} [Plugin.java.step, .act (.sourceSet (.derive "aot" "main"))], rfl, rfl, rfl⟩
  obtain ⟨before, c, hfind, hafter, -, -, -, hkept, -⟩ := (Reachable.deriveSourceSet_frame hp "aot" "main").1 q hfirst
  refine ⟨p, q, _, hp, hfirst, hafter, ?_, hkept, r, hagain, ?_⟩
  · rw [hfind] at hbefore
    have helements : before.runtimeClasspath.elements = [.output "main", .configuration "runtimeClasspath"] :=
      Option.some.inj hbefore
    show (if before.runtimeClasspath.elements.contains (.output "aot") then before.runtimeClasspath.elements
      else before.runtimeClasspath.elements ++ [.output "aot"]) = _
    rw [helements]
    rfl
  · exact (Reachable.deriveSourceSet_frame hq "aot" "main").2 _ r hagain (.inr ⟨"aot", rfl⟩)

end Project

end BuildGraph

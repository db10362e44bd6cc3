/-
  BuildGraph.Proofs.Project.Growth: what a project keeps having.

  Nothing takes an extension or a declared dependency away again, and nothing but the replacement of a
  classpath takes anything from the classpaths of a source set. So a project that has one of these has
  it as long as no classpath is replaced (`Grows`).

  - `grows_acting`: all that actions are made of lets a project grow, but for that replacement.
  - `Grows.lists` / `Grows.declares`: what a classpath lists and what a configuration declares stays, up
    to equality.
-/

import BuildGraph.Proofs.Script.Reachable

namespace BuildGraph

open Operation

namespace Project

/-! ## Growing -/

/-- No source set is gone, and no classpath lacks what it had. -/
abbrev Widens (p q : Project) : Prop := p.sourceSets.Widens q.sourceSets

theorem widens_frame : Frame Widens := ⟨fun p => .refl p.sourceSets, fun h h' => h.trans h'⟩

theorem Widens.of_eq {p q : Project} (h : q.sourceSets = p.sourceSets) : p.Widens q := by
  show p.sourceSets.Widens q.sourceSets
  rw [h]
  exact .refl _

theorem widens_onConfigurations (f : Configurations → Except ConfigError Configurations) (p : Project) :
    Keeps Widens (ConfigM.onConfigurations f) p :=
  (ConfigM.configurationsOnly_onConfigurations f).imp fun _ h => .of_eq h.sourceSets_eq

theorem widens_createConfiguration (name : String) (setup : List Configurations.Setup) (p : Project) :
    Keeps Widens (ConfigM.createConfiguration name setup) p :=
  (ConfigM.configurationsOnly_createConfiguration name setup).imp fun _ h => .of_eq h.sourceSets_eq

theorem widens_onTasks (f : Tasks → Except ConfigError Tasks) (p : Project) : Keeps Widens (ConfigM.onTasks f) p :=
  (ConfigM.tasksOnly_onTasks f).imp fun _ h => .of_eq h.sourceSets_eq

theorem widens_updateSourceSet (name : String) {f : SourceSet → SourceSet} (hf : ∀ s : SourceSet, s.Widens (f s))
    (p : Project) : Keeps Widens (ConfigM.onSourceSets (·.update name f)) p :=
  ConfigM.keeps_updateSourceSet widens_frame name fun u => .updateUnit p.sourceSets u hf

theorem widens_insert (s : SourceSet) (p : Project) : Keeps Widens (ConfigM.onSourceSets (·.insert s)) p := by
  refine ConfigM.keeps_onSourceSets widens_frame fun r hr => ?_
  obtain ⟨-, rfl⟩ := SourceSets.insert_eq_ok hr
  exact (SourceSets.Widens.layOut p.sourceSets s).trans (.register _ s.name _)

theorem widens_registerSourceSetTasks (name : String) (u : UnitId) (p : Project) :
    Keeps Widens (ConfigM.registerSourceSetTasks name u) p :=
  (ConfigM.tasksOnly_registerSourceSetTasks name u p).imp fun _ h => .of_eq h.sourceSets_eq

theorem widens_createSourceSet (name : String) (p : Project) : Keeps Widens (ConfigM.createSourceSet name) p :=
  ConfigM.keeps_createSourceSet widens_frame widens_createConfiguration (fun p s => .layOut p.sourceSets s)
    (widens_registerSourceSetTasks name) (fun p u => .register p.sourceSets name u) p

theorem widens_arranging : Arranging Widens where
  toFrame := widens_frame
  createConfiguration := widens_createConfiguration
  extendConfiguration _ _ := widens_onConfigurations _
  addDependency _ _ := widens_onConfigurations _
  editConfiguration _ _ := widens_onConfigurations _
  editSourceSet name _ p _ _ hf := widens_updateSourceSet name hf p
  createSourceSet := widens_createSourceSet

theorem widens_registerProcessingTask (kind : ProcessingKind) (input classpath : String) (roots : FileCollection)
    (outputs : ProcessingOutputs) (p : Project) :
    Keeps Widens (ConfigM.registerProcessingTask kind input classpath roots outputs) p :=
  ConfigM.keeps_registerProcessingTask widens_frame (fun _ _ => widens_onTasks _) (fun _ _ _ => .of_eq rfl) input classpath
    roots outputs p

theorem widens_wireProcessingTask (kind : ProcessingKind) (derived input classpath : String)
    (outputs : ProcessingOutputs) (p : Project) :
    Keeps Widens (ConfigM.wireProcessingTask kind derived input classpath outputs) p :=
  widens_arranging.wireProcessingTask (widens_registerProcessingTask kind input classpath)
    (fun _ _ => widens_onTasks _) derived outputs p

/-- A project that evolved without a classpath being replaced. -/
structure Grows (p q : Project) : Prop where
  evolves : Evolves p q
  widens : p.Widens q

theorem Grows.refl (p : Project) : p.Grows p := ⟨.refl, .of_eq rfl⟩

theorem Grows.trans {p q r : Project} (h : p.Grows q) (h' : q.Grows r) : p.Grows r :=
  ⟨h.evolves.trans h'.evolves, h.widens.trans h'.widens⟩

/-- All that actions are made of lets a project grow. -/
theorem grows_acting : Acting Grows where
  refl := Grows.refl
  trans := Grows.trans
  createConfiguration name setup p := ⟨evolves_acting.createConfiguration name setup p, widens_createConfiguration name setup p⟩
  extendConfiguration child parent p := ⟨evolves_acting.extendConfiguration child parent p, widens_onConfigurations _ p⟩
  addDependency name d p := ⟨evolves_acting.addDependency name d p, widens_onConfigurations _ p⟩
  editConfiguration name e p := ⟨evolves_acting.editConfiguration name e p, widens_onConfigurations _ p⟩
  editSourceSet name _ p hn ho hf := ⟨evolves_acting.editSourceSet name hn ho hf, widens_updateSourceSet name hf p⟩
  createSourceSet name p := ⟨evolves_acting.createSourceSet name p, widens_createSourceSet name p⟩
  mark p name := ⟨evolves_acting.mark p name, .of_eq rfl⟩
  body p name body := ⟨evolves_acting.body p name body, .of_eq rfl⟩
  resolve p id value := ⟨evolves_acting.resolve p id value, .of_eq rfl⟩
  supply p _ hcells := ⟨evolves_acting.supply p hcells, .of_eq rfl⟩
  values p group buildDir properties := ⟨evolves_acting.values p group buildDir properties, .of_eq rfl⟩
  insert name p := ⟨evolves_acting.insert name p, widens_insert _ p⟩
  reshape name _ p hn hf := ⟨evolves_acting.reshape name hn hf, widens_updateSourceSet name hf p⟩
  registerTask name body cs p := ⟨evolves_acting.registerTask name body cs p, widens_onTasks _ p⟩
  wait p name cs := ⟨evolves_acting.wait p name cs, .of_eq rfl⟩
  dependsOn hd hy := ⟨evolves_acting.dependsOn hd hy, widens_onTasks _ _⟩
  wireProcessingTask kind derived input classpath outputs p :=
    ⟨evolves_acting.wireProcessingTask kind derived input classpath outputs p,
      widens_wireProcessingTask kind derived input classpath outputs p⟩

theorem grows_of_update {p q : Project} {name : String} {f : SourceSet → SourceSet} {u : Unit}
    (h : ConfigM.onSourceSets (·.update name f) p = .ok u q) (hn : ∀ s, (f s).name = s.name)
    (hf : ∀ s : SourceSet, s.Widens (f s)) : p.Grows q := (grows_acting.reshape name hn hf).of_ok h

/-! ## What stays -/

/-- A classpath of the source set `name` has the element `e`. -/
def Lists (p : Project) (which : ClasspathKind) (name : String) (e : FileElement) : Prop :=
  ∃ s, p.sourceSets.find? name = some s ∧ (s.classpath which).contains e = true

/-- The configuration `name` declares files with the element `e`. -/
def Declares (p : Project) (name : String) (e : FileElement) : Prop :=
  ∃ files, .files files ∈ p.configurations.declaredOn name ∧ files.contains e = true

namespace Grows

variable {p q : Project} {which : ClasspathKind} {name : String} {e : FileElement}

theorem lists (h : p.Grows q) (hl : p.Lists which name e) : q.Lists which name e := by
  obtain ⟨s, hs, he⟩ := hl
  obtain ⟨t, ht, hst⟩ := h.widens name s hs
  exact ⟨t, ht, hst which e he⟩

theorem declares (h : p.Grows q) (hd : p.Declares name e) : q.Declares name e := by
  obtain ⟨files, hfiles, he⟩ := hd
  exact ⟨files, h.evolves.mem_declaredOn hfiles, he⟩

theorem extensions (h : p.Grows q) {e : String × String} (he : e ∈ p.configurations.extensions) :
    e ∈ q.configurations.extensions := h.evolves.mem_extensions he

end Grows

end Project

end BuildGraph

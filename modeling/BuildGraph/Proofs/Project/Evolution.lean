/-
  BuildGraph.Proofs.Project.Evolution: how a project can change, and every project that can come
  about.

  A project changes by steps of its registries and of its values (`Change`). An operation, however
  it ends, leaves a project that evolved from the one it started in by such steps (`Evolves`). So
  what every step keeps holds of every project that is reachable from a fresh one.

  - `Project.Reachable.sound`: all three registries of a reachable project are sound.
  - `Project.Evolves.retains`: registries are only added to, and at their ends, and a realized task stays
    realized.
-/

import Mathlib.Logic.Relation
import BuildGraph.Proofs.Configuration.Reach
import BuildGraph.Proofs.Operation
import BuildGraph.Proofs.SourceSet.Registry
import BuildGraph.Proofs.Task.Registry
import BuildGraph.Settings

namespace BuildGraph

open Operation Relation

namespace Project

/-! ## Reachable projects -/

/-- One step of a project. -/
inductive Change (p : Project) : Project → Prop
  | sourceSets {r : SourceSets} : p.sourceSets.Step r → Change p { p with sourceSets := r }
  | configurations {r : Configurations} : p.configurations.Step r → Change p { p with configurations := r }
  | tasks {r : Tasks} : p.tasks.Step r → Change p { p with tasks := r }
  | values (group : String) (buildDir : Path) (properties : List String) (providers : List Provider) :
    Change p { p with
      group := group, layout := { p.layout with buildDir := buildDir }, properties := properties, providers := providers }

/-- Any number of steps. -/
abbrev Evolves : Project → Project → Prop := ReflTransGen Change

theorem evolves_frame : Frame Evolves := ⟨fun _ => .refl, fun h h' => h.trans h'⟩

/-- A project that evolved from one with nothing in it. -/
def Reachable (p : Project) : Prop := ∃ s : Settings, Evolves (.ofSettings s) p

theorem reachable_ofSettings (s : Settings) : (ofSettings s).Reachable := ⟨s, .refl⟩

theorem Reachable.evolves {p q : Project} (h : p.Reachable) (he : Evolves p q) : q.Reachable := by
  obtain ⟨s, hs⟩ := h
  exact ⟨s, hs.trans he⟩

/-- What holds of every project. -/
structure Sound (p : Project) : Prop where
  sourceSets : p.sourceSets.Sound
  configurations : p.configurations.Reach
  tasks : p.tasks.Sound

theorem Sound.change {p q : Project} (h : p.Sound) (hc : Change p q) : q.Sound := by
  cases hc with
  | sourceSets hs => exact ⟨h.sourceSets.step hs, h.configurations, h.tasks⟩
  | configurations hs => exact ⟨h.sourceSets, h.configurations.step hs, h.tasks⟩
  | tasks hs => exact ⟨h.sourceSets, h.configurations, h.tasks.step hs⟩
  | values => exact ⟨h.sourceSets, h.configurations, h.tasks⟩

/-- What every step keeps stays. -/
theorem Evolves.closed {P : Project → Prop} (hP : ∀ {p q}, Change p q → P p → P q) {p q : Project} (h : Evolves p q)
    (hp : P p) : P q := by
  induction h with
  | refl => exact hp
  | tail _ hc ih => exact hP hc ih

theorem Sound.evolves {p q : Project} (h : p.Sound) (hq : Evolves p q) : q.Sound :=
  hq.closed (fun hc hp => Sound.change hp hc) h

theorem Reachable.sound {p : Project} (h : p.Reachable) : p.Sound := by
  obtain ⟨s, hs⟩ := h
  exact Sound.evolves ⟨.empty, .empty, .empty⟩ hs

/-! ## What stays -/

/-- All that is in `p` is in `q`; what is kept in order stands in front of what is new. -/
structure Retains (p q : Project) : Prop where
  sourceSets : p.sourceSets.names <+: q.sourceSets.names
  configurations : p.configurations.names <+: q.configurations.names
  tasks : p.tasks.names <+: q.tasks.names
  extensions : p.configurations.extensions <+: q.configurations.extensions
  declared : ∀ name, p.configurations.declaredOn name <+: q.configurations.declaredOn name
  edges : p.tasks.edges <+: q.tasks.edges
  realized : ∀ name, p.tasks.isRealized name = .ok true → q.tasks.isRealized name = .ok true

variable {p q : Project}

theorem Retains.refl (p : Project) : p.Retains p :=
  ⟨List.prefix_rfl, List.prefix_rfl, List.prefix_rfl, List.prefix_rfl, fun _ => List.prefix_rfl, List.prefix_rfl,
    fun _ h => h⟩

theorem Retains.trans {r : Project} (h : p.Retains q) (h' : q.Retains r) : p.Retains r where
  sourceSets := h.sourceSets.trans h'.sourceSets
  configurations := h.configurations.trans h'.configurations
  tasks := h.tasks.trans h'.tasks
  extensions := h.extensions.trans h'.extensions
  declared name := (h.declared name).trans (h'.declared name)
  edges := h.edges.trans h'.edges
  realized name hn := h'.realized name (h.realized name hn)

theorem Change.retains (h : Change p q) : p.Retains q := by
  have hp := Retains.refl p
  cases h with
  | sourceSets hs => exact { hp with sourceSets := hs.names }
  | configurations hs =>
    exact { hp with configurations := hs.names, extensions := hs.extensions, declared := hs.declaredOn }
  | tasks hs => exact { hp with tasks := hs.names, edges := hs.edges, realized := fun _ => hs.isRealized }
  | values => exact { hp with }

/-- Whatever steps a project takes, it retains what it had. -/
theorem Evolves.retains (h : Evolves p q) : p.Retains q :=
  h.closed (P := p.Retains) (fun hc hp => hp.trans hc.retains) (.refl p)

theorem Evolves.mem_tasks_names (h : Evolves p q) {name : String} (hn : name ∈ p.tasks.names) : name ∈ q.tasks.names :=
  h.retains.tasks.subset hn

theorem Evolves.mem_tasks_edges (h : Evolves p q) {e : String × String} (he : e ∈ p.tasks.edges) : e ∈ q.tasks.edges :=
  h.retains.edges.subset he

theorem Evolves.mem_configurations_names (h : Evolves p q) {name : String} (hn : name ∈ p.configurations.names) :
    name ∈ q.configurations.names := h.retains.configurations.subset hn

theorem Evolves.mem_extensions (h : Evolves p q) {e : String × String} (he : e ∈ p.configurations.extensions) :
    e ∈ q.configurations.extensions := h.retains.extensions.subset he

theorem Evolves.mem_declaredOn (h : Evolves p q) {name : String} {d : Dependency}
    (hd : d ∈ p.configurations.declaredOn name) : d ∈ q.configurations.declaredOn name :=
  (h.retains.declared name).subset hd

/-- A registered source set stays where it was laid out. -/
theorem Evolves.unitOf? (h : Evolves p q) {name : String} {u : UnitId} (hu : p.sourceSets.unitOf? name = some u) :
    q.sourceSets.unitOf? name = some u := by
  refine h.closed (P := fun q => q.sourceSets.unitOf? name = some u) (fun hc hq => ?_) hu
  cases hc with
  | sourceSets hs => exact hs.unitOf? hq
  | configurations => exact hq
  | tasks => exact hq
  | values => exact hq

end Project

end BuildGraph

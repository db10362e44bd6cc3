/-
  BuildGraph.Proofs.Project.Orderly: projects whose tasks follow the conventions.

  Every dependency leads from a task to one of a higher rank, every task is still to be realized and
  will have its inputs whatever happens to the source sets until then, and every source set compiles
  to somewhere (`Orderly`). Besides, a processing task that is there is wired (`Conventional`).

  - `Orderly.finalizes`: such a project is finalized, whatever it consists of.
  - `Orderly.register` / `dependsOn` / `layOut` / `edit`: what may be done to it.
-/

import BuildGraph.Proofs.SourceSet.Names
import BuildGraph.Proofs.Task.Realization

namespace BuildGraph

open SourceSetName

/-! ## One task -/

/-- Nothing was done to the task yet, and once it is realized it has its inputs, in every project in which `n`
    source sets are laid out. -/
structure Task.Ready (n : Nat) (t : Task) : Prop where
  fresh : t.realized = false
  asks : ∀ c ∈ t.pending, c.AsksNothing
  inputs : ∀ p : Project, n ≤ p.sourceSets.units.length → (t.realizedBody p).missingInput = none

namespace Task.Ready

variable {m n : Nat} {t : Task} {name : String}

theorem mono (h : t.Ready m) (hmn : m ≤ n) : t.Ready n :=
  ⟨h.fresh, h.asks, fun p hp => h.inputs p (Nat.le_trans hmn hp)⟩

/-- A task that waits for one change has the inputs that the change gives it. -/
theorem change {c : Change} {body : TaskBody} (h : (c.apply body).missingInput = none) :
    Task.Ready n { name := name, body := body, pending := [.change c] } := by
  refine ⟨rfl, fun c' hc => ?_, fun p _ => h⟩
  rw [List.mem_singleton] at hc
  subst hc
  trivial

theorem compile (body : JavaCompile) (u : UnitId) :
    Task.Ready n { name := name, body := .javaCompile body, pending := [.compileFrom u] } := by
  refine ⟨rfl, ?_, ?_⟩
  · intro c hc
    rw [List.mem_singleton] at hc
    subst hc
    trivial
  · intro p _
    show (Configurator.effect p (.javaCompile body) (.compileFrom u)).missingInput = none
    simp only [Configurator.effect]
    cases p.sourceSets.units[u]? <;> rfl

/-- What was laid out stays, so it is there when the task is realized. -/
theorem resources (body : ProcessResources) {u : UnitId} (hu : u < n) :
    Task.Ready n { name := name, body := .processResources body, pending := [.resourcesFrom u] } := by
  refine ⟨rfl, ?_, ?_⟩
  · intro c hc
    rw [List.mem_singleton] at hc
    subst hc
    trivial
  · intro p hp
    show (Configurator.effect p (.processResources body) (.resourcesFrom u)).missingInput = none
    have hs := List.getElem?_eq_getElem (Nat.lt_of_lt_of_le hu hp)
    simp only [Configurator.effect, hs]
    rfl

theorem classes (body : Classes) : Task.Ready n { name := name, body := .classes body } :=
  ⟨rfl, by simp, fun _ _ => rfl⟩

end Task.Ready

/-! ## All tasks -/

/-- The derived source set a processing task fills. -/
def ProcessingKind.derived : ProcessingKind → String
  | .application => derivedMain
  | .tests _ => derivedTest

/-- Processing tasks of one name fill one source set. -/
theorem ProcessingKind.derived_eq {kind other : ProcessingKind} (h : kind.taskName = other.taskName) :
    kind.derived = other.derived := by
  cases kind <;> cases other
  · rfl
  · exact absurd (show "processAot" = "processTestAot" from h) (by decide)
  · exact absurd (show "processTestAot" = "processAot" from h) (by decide)
  · rfl

namespace Project

/-- Tasks that can be put in order, and will have their inputs. -/
structure Orderly (p : Project) : Prop where
  climbs : ∀ a b, (a, b) ∈ p.tasks.edges → taskRank a < taskRank b
  ready : ∀ t ∈ p.tasks.entries, t.Ready p.sourceSets.units.length
  outputs : ∀ s ∈ p.sourceSets.units, s.output.classesDirs ≠ []

/-- The processing task of `kind` comes before the tasks of the source set it fills. -/
structure Feeds (p : Project) (kind : ProcessingKind) : Prop where
  compile : (kind.taskName, compileJava kind.derived) ∈ p.tasks.edges
  resources : (kind.taskName, processResources kind.derived) ∈ p.tasks.edges
  classes : (compileJava kind.derived, classes kind.derived) ∈ p.tasks.edges

/-- Orderly, and no processing task is there unless it is wired. -/
structure Conventional (p : Project) : Prop extends Orderly p where
  wired : ∀ kind : ProcessingKind, kind.taskName ∈ p.tasks.names → p.Feeds kind

theorem Feeds.mono {p q : Project} {kind : ProcessingKind} (h : p.Feeds kind)
    (he : ∀ e ∈ p.tasks.edges, e ∈ q.tasks.edges) : q.Feeds kind :=
  ⟨he _ h.compile, he _ h.resources, he _ h.classes⟩

namespace Orderly

variable {p q : Project}

theorem selfContained (h : p.Orderly) : p.tasks.SelfContained := by
  refine ⟨fun t ht => (h.ready t ht).asks, fun t ht hr => ?_⟩
  rw [(h.ready t ht).fresh] at hr
  cases hr

/-- The tasks are put in order, and none of them lacks an input. -/
theorem finalizes (h : p.Orderly) (hs : p.tasks.Sound) :
    ∃ order q, ConfigM.finalize p = .ok order q ∧ p.tasks.graph.TopologicalOrder order := by
  have hc := h.selfContained
  obtain ⟨hiff, horder⟩ := ConfigM.finalize_spec hs hc
  have hinputs : ∀ name ∈ p.tasks.names, p.HasInputs name := by
    intro name hn
    obtain ⟨t, ht⟩ := Tasks.exists_find?_iff.mpr hn
    have hready := h.ready t (Tasks.mem_of_find? ht)
    exact (ConfigM.hasInputs_iff hc).mpr ⟨t, ht, hready.inputs p (Nat.le_refl _)⟩
  obtain ⟨order, q, hq⟩ := hiff.mpr ⟨hinputs, .of_rank taskRank h.climbs⟩
  exact ⟨order, q, hq, horder order q hq⟩

theorem congr (h : p.Orderly) (ht : q.tasks = p.tasks) (hs : q.sourceSets = p.sourceSets) : q.Orderly := by
  refine ⟨?_, ?_, ?_⟩
  · rw [ht]
    exact h.climbs
  · rw [ht, hs]
    exact h.ready
  · rw [hs]
    exact h.outputs

theorem register {name : String} {body : TaskBody} {cs : List Configurator} {r : Tasks} (h : p.Orderly)
    (hr : p.tasks.register name body cs = .ok r)
    (hready : Task.Ready p.sourceSets.units.length { name := name, body := body, pending := cs }) :
    Orderly { p with tasks := r } := by
  obtain ⟨-, rfl⟩ := Tasks.register_eq_ok hr
  refine ⟨h.climbs, fun t ht => ?_, h.outputs⟩
  rcases List.mem_append.mp ht with ht | ht
  · exact h.ready t ht
  · rw [List.mem_singleton] at ht
    subst ht
    exact hready

theorem dependsOn {dependent dependency : String} (h : p.Orderly) (hk : taskRank dependency < taskRank dependent) :
    Orderly { p with tasks := p.tasks.dependsOn dependent dependency } := by
  refine ⟨fun a b hab => ?_, h.ready, h.outputs⟩
  rcases Digraph.mem_connect.mp hab with hab | hab
  · exact h.climbs a b hab
  · cases hab
    exact hk

theorem layOut {s : SourceSet} (h : p.Orderly) (hs : s.output.classesDirs ≠ []) :
    Orderly { p with sourceSets := p.sourceSets.layOut s } := by
  refine ⟨h.climbs, fun t ht => (h.ready t ht).mono ?_, ?_⟩
  · show p.sourceSets.units.length ≤ (p.sourceSets.units ++ [s]).length
    simp
  · intro s' hs'
    rcases List.mem_append.mp hs' with hs' | hs'
    · exact h.outputs s' hs'
    · rw [List.mem_singleton] at hs'
      subst hs'
      exact hs

/-- Registering a source set lays nothing out. -/
theorem registerSourceSet (h : p.Orderly) (name : String) (u : UnitId) :
    Orderly { p with sourceSets := p.sourceSets.register name u } := ⟨h.climbs, h.ready, h.outputs⟩

/-- A source set may be changed in all but its output. -/
theorem edit {f : SourceSet → SourceSet} (h : p.Orderly) (u : UnitId) (hf : ∀ s, (f s).output = s.output) :
    Orderly { p with sourceSets := p.sourceSets.updateUnit u f } := by
  refine ⟨h.climbs, fun t ht => (h.ready t ht).mono ?_, ?_⟩
  · exact Nat.le_of_eq (List.length_modify ..).symm
  · intro s hs
    have hs : s ∈ p.sourceSets.units.modify u f := hs
    obtain ⟨i, hi⟩ := List.mem_iff_getElem?.mp hs
    rw [List.getElem?_modify] at hi
    cases hx : p.sourceSets.units[i]? with
    | none =>
      rw [hx] at hi
      cases hi
    | some x =>
      have hout := h.outputs x (List.mem_of_getElem? hx)
      rw [hx] at hi
      simp only [Option.map_eq_map, Option.map_some, Option.some.injEq] at hi
      rw [← hi]
      split
      · rw [hf]
        exact hout
      · exact hout

end Orderly

namespace Conventional

variable {p q : Project}

theorem congr (h : p.Conventional) (ht : q.tasks = p.tasks) (hs : q.sourceSets = p.sourceSets) : q.Conventional := by
  refine ⟨h.toOrderly.congr ht hs, fun kind hk => ?_⟩
  rw [ht] at hk
  refine (h.wired kind hk).mono ?_
  intro e he
  rw [ht]
  exact he

/-- The source sets make no difference to how processing is wired. -/
theorem of_sourceSets {r : SourceSets} (h : p.Conventional) (ho : Orderly { p with sourceSets := r }) :
    Conventional { p with sourceSets := r } := ⟨ho, fun kind hk => (h.wired kind hk).mono fun _ he => he⟩

/-- A task that does not process needs no wiring. -/
theorem register {name : String} {body : TaskBody} {cs : List Configurator} {r : Tasks} (h : p.Conventional)
    (hname : ∀ kind : ProcessingKind, kind.taskName ≠ name) (hr : p.tasks.register name body cs = .ok r)
    (hready : Task.Ready p.sourceSets.units.length { name := name, body := body, pending := cs }) :
    Conventional { p with tasks := r } := by
  refine ⟨h.toOrderly.register hr hready, fun kind hk => ?_⟩
  have hk : kind.taskName ∈ r.names := hk
  rw [Tasks.names_of_register hr, List.mem_append, List.mem_singleton] at hk
  refine (h.wired kind (hk.resolve_right (hname kind))).mono ?_
  intro e he
  show e ∈ r.edges
  rw [Tasks.edges_of_register hr]
  exact he

theorem dependsOn {dependent dependency : String} (h : p.Conventional)
    (hk : taskRank dependency < taskRank dependent) :
    Conventional { p with tasks := p.tasks.dependsOn dependent dependency } :=
  ⟨h.toOrderly.dependsOn hk, fun kind hn => (h.wired kind hn).mono fun _ he => Digraph.mem_connect.mpr (.inl he)⟩

/-- A processing task may be registered together with its place before the tasks it feeds. -/
theorem feed {kind : ProcessingKind} {body : TaskBody} {cs : List Configurator} {r : Tasks} (h : p.Conventional)
    (hr : p.tasks.register kind.taskName body cs = .ok r)
    (hready : Task.Ready p.sourceSets.units.length { name := kind.taskName, body := body, pending := cs })
    (hclasses : (compileJava kind.derived, classes kind.derived) ∈ p.tasks.edges) :
    Conventional { p with
      tasks := (r.dependsOn (compileJava kind.derived) kind.taskName).dependsOn (processResources kind.derived)
        kind.taskName } := by
  have hregistered := h.toOrderly.register hr hready
  have hrank : taskRank kind.taskName < taskRank (compileJava kind.derived) := by simp
  have hcompile := hregistered.dependsOn hrank
  have hedges : ∀ e ∈ p.tasks.edges, e ∈ ((r.dependsOn (compileJava kind.derived) kind.taskName).dependsOn
      (processResources kind.derived) kind.taskName).edges := by
    intro e he
    rw [← Tasks.edges_of_register hr] at he
    exact Digraph.mem_connect.mpr (.inl (Digraph.mem_connect.mpr (.inl he)))
  refine ⟨hcompile.dependsOn (by simp), fun other ho => ?_⟩
  have ho : other.taskName ∈ r.names := ho
  rw [Tasks.names_of_register hr, List.mem_append, List.mem_singleton] at ho
  rcases ho with ho | ho
  · exact (h.wired other ho).mono hedges
  · have hd := ProcessingKind.derived_eq ho
    refine ⟨?_, ?_, ?_⟩
    · rw [ho, hd]
      exact Digraph.mem_connect.mpr (.inl (Digraph.mem_connect.mpr (.inr rfl)))
    · rw [ho, hd]
      exact Digraph.mem_connect.mpr (.inr rfl)
    · rw [hd]
      exact hedges _ hclasses

end Conventional

end Project

end BuildGraph

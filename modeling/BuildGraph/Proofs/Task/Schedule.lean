/-
  BuildGraph.Proofs.Task.Schedule: when the tasks of a project can be put in order.

  `Scheduled p pairs` says that the tasks of `p` came about by registering and configuring tasks and
  declaring dependencies, in any order, the dependencies being those in `pairs`. Tasks may be
  realized in between; what else happens to the project makes no difference.

  - `Scheduled.declared`: the registry of the tasks is then sound, and its edges are the pairs.
  - `Scheduled.finalize_orders`: the project is finalized exactly if no task lacks an input and the
    pairs have no cycle, and then every task stands after all it was ever said to depend on.
-/

import BuildGraph.Proofs.Project.Basic
import BuildGraph.Proofs.Task.Realization

namespace BuildGraph

open Operation Project

/-- The tasks of a project, reached by registering and configuring them with configurators that touch nothing but
    their own body, and the pairs of a task and one it depends on declared on the way, latest first. -/
inductive Scheduled : Project → List (String × String) → Prop
  | start {p : Project} : p.tasks = {} → Scheduled p []
  | register {p : Project} {pairs : List (String × String)} {cs : List Configurator} (name : String) (body : TaskBody) :
    Scheduled p pairs → (∀ c ∈ cs, c.AsksNothing) → Scheduled (after (ConfigM.registerTask name body cs) p) pairs
  | configure {p : Project} {pairs : List (String × String)} {cs : List Configurator} (name : String) :
    Scheduled p pairs → (∀ c ∈ cs, c.AsksNothing) → Scheduled (after (ConfigM.configure name cs) p) pairs
  | dependsOn {p : Project} {pairs : List (String × String)} {dependent dependency : String} :
    Scheduled p pairs → dependent ∈ p.tasks.names → dependency ∈ p.tasks.names →
      Scheduled (after (ConfigM.dependsOn dependent dependency) p) ((dependent, dependency) :: pairs)
  | realize {p : Project} {pairs : List (String × String)} (name : String) :
    Scheduled p pairs → Scheduled (after (ConfigM.realize name) p) pairs
  | finalize {p : Project} {pairs : List (String × String)} :
    Scheduled p pairs → Scheduled (after ConfigM.finalize p) pairs
  | elsewhere {p q : Project} {pairs : List (String × String)} :
    Scheduled p pairs → q.tasks = p.tasks → Scheduled q pairs

/-- What every such project has. -/
structure Declared (p : Project) (pairs : List (String × String)) : Prop where
  sound : p.tasks.Sound
  contained : p.tasks.SelfContained
  edges : ∀ a b, (a, b) ∈ p.tasks.edges ↔ (b, a) ∈ pairs

namespace Declared

variable {p q : Project} {pairs : List (String × String)} {cs : List Configurator} {name : String}

theorem register (h : Declared p pairs) (hcs : ∀ c ∈ cs, c.AsksNothing) (body : TaskBody) :
    Declared (after (ConfigM.registerTask name body cs) p) pairs := by
  cases hr : p.tasks.register name body cs with
  | error e =>
    rw [after_of_error (ConfigM.registerTask_error hr)]
    exact h
  | ok r =>
    rw [after_of_ok (ConfigM.registerTask_ok hr)]
    refine ⟨h.sound.register hr, ?_, ?_⟩
    · obtain ⟨-, rfl⟩ := Tasks.register_eq_ok hr
      refine ⟨fun t ht => ?_, fun t ht => ?_⟩
      all_goals
        rcases List.mem_append.mp ht with ht | ht
      · exact h.contained.asks t ht
      · rw [List.mem_singleton] at ht
        rw [ht]
        exact hcs
      · exact h.contained.settled t ht
      · rw [List.mem_singleton] at ht
        rw [ht]
        exact fun hf => absurd hf Bool.false_ne_true
    · obtain ⟨-, rfl⟩ := Tasks.register_eq_ok hr
      exact h.edges

/-- A change to a task that keeps its name and lets nothing wait that may not. -/
theorem update {f : Task → Task} (h : Declared p pairs) (hf : ∀ t, (f t).name = t.name)
    (ha : ∀ t ∈ p.tasks.entries, t.name = name → ∀ c ∈ (f t).pending, c.AsksNothing)
    (hr : ∀ t ∈ p.tasks.entries, t.name = name → (f t).realized = true → (f t).pending = []) :
    Declared { p with tasks := p.tasks.update name f } pairs := by
  refine ⟨h.sound.of_names_edges (Tasks.names_update hf) rfl, ⟨fun t ht => ?_, fun t ht => ?_⟩, h.edges⟩
  all_goals
    rcases Tasks.mem_entries_update ht with ht | ⟨u, hu, hn, rfl⟩
  · exact h.contained.asks t ht
  · exact ha u hu hn
  · exact h.contained.settled t ht
  · exact hr u hu hn

theorem configure (h : Declared p pairs) (hcs : ∀ c ∈ cs, c.AsksNothing) :
    Declared (after (ConfigM.configure name cs) p) pairs := by
  cases ht : p.tasks.find? name with
  | none =>
    rw [after_of_error (ConfigM.configure_of_not_mem (Tasks.find?_eq_none_iff.mp ht))]
    exact h
  | some t =>
    have htask : ∀ u ∈ p.tasks.entries, u.name = name → u = t := fun _ => Tasks.eq_of_find? h.sound.nodup ht
    cases hr : t.realized with
    | true =>
      rw [after_of_ok (ConfigM.configure_of_realized ht hr hcs)]
      exact h.update (fun _ => rfl) (fun u hu _ => h.contained.asks u hu) fun u hu _ => h.contained.settled u hu
    | false =>
      rw [after_of_ok (ConfigM.configure_of_unrealized ht hr)]
      refine h.update (fun _ => rfl) (fun u hu _ c hc => ?_) ?_
      · rcases List.mem_append.mp hc with hc | hc
        · exact h.contained.asks u hu c hc
        · exact hcs c hc
      · intro u hu hn hu'
        have hu'' : u.realized = true := hu'
        rw [htask u hu hn, hr] at hu''
        exact absurd hu'' Bool.false_ne_true

theorem dependsOn {dependent dependency : String} (h : Declared p pairs) (hd : dependent ∈ p.tasks.names)
    (hy : dependency ∈ p.tasks.names) :
    Declared (after (ConfigM.dependsOn dependent dependency) p) ((dependent, dependency) :: pairs) := by
  refine ⟨h.sound.dependsOn hd hy, ⟨h.contained.asks, h.contained.settled⟩, fun a b => ?_⟩
  show (a, b) ∈ Digraph.connect p.tasks.edges dependency dependent ↔ _
  rw [Digraph.mem_connect, h.edges, List.mem_cons, Prod.mk.injEq, Prod.mk.injEq]
  constructor
  · rintro (hab | ⟨rfl, rfl⟩)
    · exact .inr hab
    · exact .inl ⟨rfl, rfl⟩
  · rintro (⟨rfl, rfl⟩ | hab)
    · exact .inr ⟨rfl, rfl⟩
    · exact .inl hab

theorem realized (h : Declared p pairs) (hq : Realized p q) : Declared q pairs := by
  refine ⟨h.sound.of_names_edges hq.names hq.edges, hq.contained h.contained, fun a b => ?_⟩
  rw [hq.edges]
  exact h.edges a b

end Declared

namespace Scheduled

variable {p : Project} {pairs : List (String × String)}

theorem declared (h : Scheduled p pairs) : Declared p pairs := by
  induction h with
  | start ht =>
    refine ⟨ht ▸ .empty, ⟨?_, ?_⟩, ?_⟩
    all_goals rw [ht]; simp
  | register name body _ hcs ih => exact ih.register hcs body
  | configure name _ hcs ih => exact ih.configure hcs
  | dependsOn _ hd hy ih => exact ih.dependsOn hd hy
  | @realize p _ name _ ih =>
    by_cases hn : name ∈ p.tasks.names
    · obtain ⟨t, ht⟩ := Tasks.exists_find?_iff.mpr hn
      obtain ⟨q, hr, hq⟩ := ConfigM.realize_eq ih.contained ht
      rw [after_of_ok hr]
      exact ih.realized hq
    · rw [after_of_error (ConfigM.realize_of_not_mem hn)]
      exact ih
  | @finalize p _ _ ih =>
    obtain ⟨q, hq, ⟨_, _, hfin, -, -⟩ | ⟨-, ⟨_, hfin, -⟩ | ⟨_, hfin, -⟩⟩⟩ := ConfigM.finalize_cases ih.contained
    · rw [after_of_error hfin]
      exact ih.realized hq
    · rw [after_of_ok hfin]
      exact ih.realized hq
    · rw [after_of_error hfin]
      exact ih.realized hq
  | elsewhere _ ht ih =>
    refine ⟨ht ▸ ih.sound, ht ▸ ih.contained, fun a b => ?_⟩
    rw [ht]
    exact ih.edges a b

theorem acyclic_iff (h : Declared p pairs) : p.tasks.graph.Acyclic ↔ ({ edges := pairs } : Digraph String).Acyclic := by
  constructor
  · intro ha a hr
    exact ha a (hr.flip fun x y hxy => (h.edges y x).mpr hxy)
  · intro ha a hr
    exact ha a (hr.flip fun x y hxy => (h.edges x y).mp hxy)

/-- A project is finalized exactly if every task has its inputs and the declared pairs have no cycle. The order
    then has each task once, and each after all it depends on. -/
theorem finalize_orders (h : Scheduled p pairs) :
    ((∃ order q, ConfigM.finalize p = .ok order q) ↔
        (∀ name ∈ p.tasks.names, p.HasInputs name) ∧ ({ edges := pairs } : Digraph String).Acyclic) ∧
      ∀ order q, ConfigM.finalize p = .ok order q →
        order.Nodup ∧ (∀ name, name ∈ order ↔ name ∈ p.tasks.names) ∧
          ∀ dependent dependency, (dependent, dependency) ∈ pairs → Before order dependency dependent := by
  have hd := h.declared
  obtain ⟨hiff, horder⟩ := ConfigM.finalize_spec hd.sound hd.contained
  refine ⟨hiff.trans (and_congr_right fun _ => acyclic_iff hd), fun order q hq => ?_⟩
  have ho := horder order q hq
  exact ⟨ho.nodup, ho.mem, fun dependent dependency hp => ho.before _ _ ((hd.edges _ _).mpr hp)⟩

/-- A task registered before the one it depends on stands after it. -/
theorem finalize_orders_package_after_compile :
    let p : Project := { (default : Project) with
      tasks :=
        { entries := [{ name := "package", body := .classes {} }, { name := "compile", body := .javaCompile {} }]
          edges := [("compile", "package")] } }
    Scheduled p [("package", "compile")] ∧
      ∃ order q, ConfigM.finalize p = .ok order q ∧ Before order "compile" "package" := by
  intro p
  have h₁ : Scheduled (after (ConfigM.registerTask "package" (.classes {}) []) default) [] :=
    register _ _ (start rfl) (by simp)
  have h₂ : Scheduled (after (ConfigM.registerTask "compile" (.javaCompile {}) []) _) [] := register _ _ h₁ (by simp)
  have h₃ : Scheduled _ [("package", "compile")] := dependsOn h₂ (by decide) (by decide)
  have hp : Scheduled p [("package", "compile")] := h₃.elsewhere rfl
  have hinputs : ∀ name ∈ p.tasks.names, p.HasInputs name := by
    intro name hn
    have : name = "package" ∨ name = "compile" := by simpa [p, Tasks.names] using hn
    rcases this with rfl | rfl <;> exact ⟨_, _, rfl, rfl⟩
  have hacyclic : ({ edges := [("package", "compile")] } : Digraph String).Acyclic :=
    .of_rank (fun name => if name = "package" then 0 else 1) (by simp)
  obtain ⟨hiff, horder⟩ := Scheduled.finalize_orders hp
  obtain ⟨order, q, hq⟩ := hiff.mpr ⟨hinputs, hacyclic⟩
  exact ⟨hp, order, q, hq, (horder order q hq).2.2 "package" "compile" (by simp)⟩

end Scheduled

end BuildGraph

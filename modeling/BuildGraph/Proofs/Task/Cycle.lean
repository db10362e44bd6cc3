/-
  BuildGraph.Proofs.Task.Cycle: the task that is named when tasks wait for each other.

  The tasks of a project come about by registering and configuring tasks and declaring dependencies, and in
  between tasks are realized and lazy values computed. `Linked p pairs` says so of `p`, whatever the configurators
  ask for; `pairs` are the dependencies that were declared. Nothing that is computed makes a difference to them,
  so a project whose tasks have their inputs goes by the sort of the tasks alone.

  - `Linked.links`: the edges between the tasks are the pairs, turned round.
  - `Linked.finalize_names_cycle`: if the pairs have a cycle, a task on one is named, and no task that only leads to
    one or comes after one.
-/

import BuildGraph.Proofs.Project.Evaluation
import BuildGraph.Proofs.Task.Realization

namespace BuildGraph

open Operation Project

/-! ## Tasks and their dependencies -/

/-- The tasks of a project, however they came about, and the pairs of a task and one it depends on declared on the
    way, latest first. -/
inductive Linked : Project → List (String × String) → Prop
  | start {p : Project} : p.tasks = {} → Linked p []
  | register {p : Project} {pairs : List (String × String)} (name : String) (body : TaskBody) (cs : List Configurator) :
    Linked p pairs → Linked (after (ConfigM.registerTask name body cs) p) pairs
  | configure {p : Project} {pairs : List (String × String)} (name : String) (cs : List Configurator) :
    Linked p pairs → Linked (after (ConfigM.configure name cs) p) pairs
  | dependsOn {p : Project} {pairs : List (String × String)} {dependent dependency : String} :
    Linked p pairs → dependent ∈ p.tasks.names → dependency ∈ p.tasks.names →
      Linked (after (ConfigM.dependsOn dependent dependency) p) ((dependent, dependency) :: pairs)
  | realize {p : Project} {pairs : List (String × String)} (name : String) :
    Linked p pairs → Linked (after (ConfigM.realize name) p) pairs
  | evaluate {p : Project} {pairs : List (String × String)} (id : ProviderId) :
    Linked p pairs → Linked (after (ConfigM.evaluate id) p) pairs
  | finalize {p : Project} {pairs : List (String × String)} :
    Linked p pairs → Linked (after ConfigM.finalize p) pairs
  | elsewhere {p q : Project} {pairs : List (String × String)} :
    Linked p pairs → q.tasks = p.tasks → Linked q pairs

/-- The registry is sound, and its edges are the pairs of a task and one it depends on. -/
structure Tasks.Links (r : Tasks) (pairs : List (String × String)) : Prop where
  sound : r.Sound
  edges : ∀ a b, (a, b) ∈ r.edges ↔ (b, a) ∈ pairs

namespace Tasks.Links

variable {r r' : Tasks} {pairs : List (String × String)}

theorem of_graph_eq (h : r.Links pairs) (he : r'.graph = r.graph) : r'.Links pairs := by
  have hnames : r'.names = r.names := congrArg Digraph.nodes he
  have hedges : r'.edges = r.edges := congrArg Digraph.edges he
  refine ⟨h.sound.of_names_edges hnames hedges, fun a b => ?_⟩
  rw [hedges]
  exact h.edges a b

theorem register {name : String} {body : TaskBody} {cs : List Configurator} (h : r.Links pairs)
    (hr : r.register name body cs = .ok r') : r'.Links pairs := by
  refine ⟨h.sound.register hr, fun a b => ?_⟩
  rw [edges_of_register hr]
  exact h.edges a b

theorem dependsOn {dependent dependency : String} (h : r.Links pairs) (hd : dependent ∈ r.names)
    (hy : dependency ∈ r.names) : (r.dependsOn dependent dependency).Links ((dependent, dependency) :: pairs) := by
  refine ⟨h.sound.dependsOn hd hy, fun a b => ?_⟩
  show (a, b) ∈ Digraph.connect r.edges dependency dependent ↔ _
  rw [Digraph.mem_connect, h.edges, List.mem_cons, Prod.mk.injEq, Prod.mk.injEq, or_comm, and_comm]

/-- Depending on oneself through the pairs is lying on a cycle of the tasks. -/
theorem reaches_iff (h : r.Links pairs) {a b : String} :
    r.graph.Reaches a b ↔ ({ edges := pairs } : Digraph String).Reaches b a :=
  ⟨fun hr => hr.flip fun x y hxy => (h.edges x y).mp hxy, fun hr => hr.flip fun x y hxy => (h.edges y x).mpr hxy⟩

end Tasks.Links

/-- Whatever is computed, the tasks and the edges between them are as before. -/
theorem realizing_graph : Realizing fun p q => q.tasks.graph = p.tasks.graph where
  refl _ := rfl
  trans h h' := h'.trans h
  mark p _ := congrArg (Digraph.mk · p.tasks.edges) (Tasks.names_update fun _ => rfl)
  body p _ _ := congrArg (Digraph.mk · p.tasks.edges) (Tasks.names_update fun _ => rfl)
  resolve _ _ _ := rfl

namespace Linked

variable {p : Project} {pairs : List (String × String)}

/-- What is so of no tasks, and stays so when a task is registered or a dependency declared, is so of every project, if it
    depends on the names and edges alone. -/
theorem tasks_induction {P : Tasks → List (String × String) → Prop} (start : P {} [])
    (register : ∀ {r r' : Tasks} {pairs name body cs}, P r pairs → r.register name body cs = .ok r' → P r' pairs)
    (dependsOn : ∀ {r : Tasks} {pairs dependent dependency}, P r pairs → dependent ∈ r.names → dependency ∈ r.names →
      P (r.dependsOn dependent dependency) ((dependent, dependency) :: pairs))
    (graph : ∀ {r r' : Tasks} {pairs}, P r pairs → r'.graph = r.graph → P r' pairs) (h : Linked p pairs) :
    P p.tasks pairs := by
  have hE := realizing_graph.evaluating
  induction h with
  | start ht => exact ht ▸ start
  | @register p _ name body cs _ ih =>
    cases hr : p.tasks.register name body cs with
    | ok r =>
      rw [after_of_ok (ConfigM.registerTask_ok hr)]
      exact register ih hr
    | error e =>
      rw [after_of_error (ConfigM.registerTask_error hr)]
      exact ih
  | @configure p _ name cs _ ih =>
    have hwait : ∀ (p : Project) name cs, (p.tasks.update name fun t => { t with pending := t.pending ++ cs }).graph =
        p.tasks.graph := fun p name cs => congrArg (Digraph.mk · p.tasks.edges) (Tasks.names_update fun _ => rfl)
    exact graph ih (realizing_graph.configure hwait name cs p)
  | dependsOn _ hd hy ih => exact dependsOn ih hd hy
  | @realize p _ name _ ih => exact graph ih (hE.realize name p)
  | @evaluate p _ id _ ih => exact graph ih (hE.evaluate id p)
  | @finalize p _ _ ih => exact graph ih (hE.finalize p)
  | elsewhere _ ht ih =>
    rw [ht]
    exact ih

theorem links (h : Linked p pairs) : p.tasks.Links pairs :=
  h.tasks_induction ⟨.empty, by simp⟩ .register .dependsOn .of_graph_eq

end Linked

/-! ## Tasks that have their inputs -/

namespace Project

/-- Realized one after another, the tasks in `names` report no missing input. -/
inductive HaveInputs : Project → List String → Prop
  | nil (p : Project) : HaveInputs p []
  | cons {p q : Project} {name : String} {names : List String} {body : TaskBody} :
    ConfigM.realize name p = .ok body q → body.missingInput = none → HaveInputs q names → HaveInputs p (name :: names)

variable {p : Project} {names : List String}

theorem HaveInputs.forM (h : p.HaveInputs names) :
    ∃ q, names.forM ConfigM.realizeChecked p = .ok ⟨⟩ q ∧ q.tasks.graph = p.tasks.graph := by
  induction h with
  | nil p => exact ⟨p, rfl, rfl⟩
  | @cons p q name names body hr hm _ ih =>
    obtain ⟨q', hrest, hgraph⟩ := ih
    have hchecked : ConfigM.realizeChecked name p = .ok ⟨⟩ q := by
      rw [ConfigM.realizeChecked, bind_of_ok hr, hm]
      rfl
    have hfirst : q.tasks.graph = p.tasks.graph := (realizing_graph.evaluating.realize name p).of_ok hr
    refine ⟨q', ?_, hgraph.trans hfirst⟩
    show (ConfigM.realizeChecked name >>= fun _ => names.forM ConfigM.realizeChecked) p = _
    rw [bind_of_ok hchecked]
    exact hrest

/-- Where no configurator asks for a lazy value, it makes no difference in which order tasks are realized. -/
theorem haveInputs_of_selfContained (hc : p.tasks.SelfContained) (h : ∀ name ∈ names, p.HasInputs name) :
    p.HaveInputs names := by
  induction names generalizing p with
  | nil => exact .nil p
  | cons name names ih =>
    obtain ⟨t, ht, hm⟩ := (ConfigM.hasInputs_iff hc).mp (h name (List.mem_cons_self ..))
    obtain ⟨q, hr, hq⟩ := ConfigM.realize_eq hc ht
    exact .cons hr hm (ih (hq.contained hc) fun other ho => (hq.hasInputs_iff hc).mpr (h other (List.mem_cons_of_mem _ ho)))

/-- A project whose tasks have their inputs is finalized as the sort of its tasks goes. -/
theorem HaveInputs.finalize (h : p.HaveInputs p.tasks.names) :
    ∃ q, ConfigM.finalize p = match p.tasks.graph.topologicalSort with
      | .ok order => .ok order q
      | .error name => .error (.taskCycle name) q := by
  obtain ⟨q, hok, hgraph⟩ := h.forM
  refine ⟨q, ?_⟩
  rw [ConfigM.finalize, bind_of_ok (get_apply p), bind_of_ok hok, ConfigM.executionOrder, bind_of_ok (get_apply q), hgraph]
  cases p.tasks.graph.topologicalSort <;> rfl

end Project

namespace Linked

variable {p : Project} {pairs : List (String × String)}

/-- If all tasks have their inputs and the declared pairs have a cycle, finalizing the project names a task, and one
    that depends on itself. A task that lies on no cycle is not named, wherever the cycles are. -/
theorem finalize_names_cycle (h : Linked p pairs) (hinputs : p.HaveInputs p.tasks.names)
    (hcycle : ¬ ({ edges := pairs } : Digraph String).Acyclic) :
    (∃ name q, ConfigM.finalize p = .error (.taskCycle name) q ∧ name ∈ p.tasks.names ∧
        ({ edges := pairs } : Digraph String).Reaches name name) ∧
      ∀ name, ¬ ({ edges := pairs } : Digraph String).Reaches name name →
        ∀ q, ConfigM.finalize p ≠ .error (.taskCycle name) q := by
  obtain ⟨hsound, hedges⟩ := h.links
  obtain ⟨hnamed, horder⟩ := Digraph.topologicalSort_spec hsound.wellFormed
  obtain ⟨q, hfinalize⟩ := hinputs.finalize
  cases hsort : p.tasks.graph.topologicalSort with
  | ok order =>
    -- an order of the tasks would show that there is no cycle
    obtain ⟨hnodup, -, hbefore⟩ := horder order hsort
    have hacyclic := Digraph.Acyclic.of_before hnodup hbefore
    exact absurd (fun a ha => hacyclic a (h.links.reaches_iff.mpr ha)) hcycle
  | error name =>
    rw [hsort] at hfinalize
    have hself : p.tasks.graph.Reaches name name := hnamed name hsort
    obtain ⟨⟨x, hx⟩, -⟩ := hself.ends
    refine ⟨⟨name, q, hfinalize, hsound.source name x hx, h.links.reaches_iff.mp hself⟩, fun other hother r hr => ?_⟩
    rw [hfinalize] at hr
    cases hr
    exact hother (h.links.reaches_iff.mp hself)

/-- Two tasks wait for each other, one leads to them and one comes after them; the stamp of one of the two is a lazy value
    read from the task that leads to them. -/
theorem finalize_names_cycle_between_others :
    let type : CustomType := ⟨"Bundle", false⟩
    let blank : TaskBody := .custom type {}
    let p : Project := { (default : Project) with
      tasks :=
        { entries := [{ name := "publish", body := blank }, { name := "package", body := blank },
            { name := "compile", body := blank, pending := [.logFrom type (.provider 0)] },
            { name := "fetch", body := blank }]
          edges := [("package", "publish"), ("compile", "package"), ("package", "compile"), ("fetch", "compile")] }
      providers := [{ thunk := .fromTask "fetch" fun _ => .text "1.0" }] }
    let pairs := [("compile", "fetch"), ("compile", "package"), ("package", "compile"), ("publish", "package")]
    Linked p pairs ∧ p.HaveInputs p.tasks.names ∧ ¬ ({ edges := pairs } : Digraph String).Acyclic ∧
      ∃ q, ConfigM.finalize p = .error (.taskCycle "compile") q ∧
        ({ edges := pairs } : Digraph String).Reaches "compile" "compile" := by
  intro type blank p pairs
  have hregistered : Linked { p with tasks := { p.tasks with edges := [] } } [] :=
    register "fetch" blank [] (register "compile" blank [.logFrom type (.provider 0)] (register "package" blank []
      (register "publish" blank [] (start (p := { p with tasks := {} }) rfl))))
  have hpublish := @dependsOn _ _ "publish" "package" hregistered (by decide) (by decide)
  have hpackage := @dependsOn _ _ "package" "compile" hpublish (by decide) (by decide)
  have hcompile := @dependsOn _ _ "compile" "package" hpackage (by decide) (by decide)
  have hlinked : Linked p pairs := @dependsOn _ _ "compile" "fetch" hcompile (by decide) (by decide)
  have hinputs : p.HaveInputs p.tasks.names := .cons rfl rfl (.cons rfl rfl (.cons rfl rfl (.cons rfl rfl (.nil _))))
  have hback : ({ edges := pairs } : Digraph String).Reaches "compile" "compile" :=
    .step (b := "package") (by decide) (.edge (by decide))
  have hcycle : ¬ ({ edges := pairs } : Digraph String).Acyclic := fun h => h "compile" hback
  obtain ⟨⟨name, q, hq, -, hself⟩, -⟩ := Linked.finalize_names_cycle hlinked hinputs hcycle
  have hsort : p.tasks.graph.topologicalSort = .error "compile" := by decide +kernel
  obtain rfl : name = "compile" := by
    obtain ⟨r, hr⟩ := hinputs.finalize
    rw [hr, hsort] at hq
    cases hq
    rfl
  exact ⟨hlinked, hinputs, hcycle, q, hq, hself⟩

end Linked

end BuildGraph

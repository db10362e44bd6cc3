/-
  BuildGraph.Proofs.Task.Realization: tasks whose configurators touch nothing but their own body.

  Such a task is realized without failing, to a body that does not depend on when this is done
  (`Task.realizedBody`), and realizing it changes nothing else that can be seen
  (`Project.Realized`). So realizing every task in turn fails exactly if one of them lacks an
  input.

  - `realize_eq`: what realizing a task gives and leaves.
  - `Project.Realized.hasInputs_iff`: realizing tasks changes nothing about which have their inputs.
  - `finalize_spec`: a project is finalized exactly if all tasks have their inputs and there is an
    order to run them in; it is put in such an order.
-/

import BuildGraph.Project.Evaluation
import BuildGraph.Proofs.Operation
import BuildGraph.Proofs.Task.Registry

namespace BuildGraph

open Operation

/-! ## One configurator -/

namespace Configurator

/-- The configurator computes no lazy value. -/
def AsksNothing : Configurator → Prop
  | .logFrom _ (.provider _) => False
  | _ => True

/-- The body after a configurator that computes no lazy value. -/
def effect (p : Project) (body : TaskBody) : Configurator → TaskBody
  | .change c => c.apply body
  | .compileFrom unit =>
    match body, p.sourceSets.units[unit]? with
    | .javaCompile t, some s =>
      .javaCompile { t with classpath := s.compileClasspath, destination := s.output.classesDirs }
    | _, _ => body
  | .resourcesFrom unit =>
    match body, p.sourceSets.units[unit]? with
    | .processResources t, some s => .processResources { t with destination := some s.output.resourcesDir }
    | _, _ => body
  | .logFrom type (.property id) =>
    match body with
    | .custom other t => .custom other (if type = other then { t with log := t.log ++ [p.property id] } else t)
    | _ => body
  | .logFrom _ (.provider _) => body

variable {c : Configurator} {p : Project}

/-- Such a configurator changes the body, and nothing else. -/
theorem run_of_asksNothing (h : c.AsksNothing) (ask : ProviderId → ConfigM String) (body : TaskBody) :
    c.run ask body p = .ok (c.effect p body) p := by
  cases c with
  | change c => rfl
  | compileFrom unit =>
    simp only [run, effect, bind_apply, get_apply]
    cases body <;> cases p.sourceSets.units[unit]? <;> rfl
  | resourcesFrom unit =>
    simp only [run, effect, bind_apply, get_apply]
    cases body <;> cases p.sourceSets.units[unit]? <;> rfl
  | logFrom type source =>
    cases source with
    | provider id => exact h.elim
    | property id =>
      cases body with
      | custom other t =>
        by_cases ht : type = other
        · simp only [run, effect, readText, ht, if_true, bind_apply, get_apply, pure_apply]
        · simp only [run, effect, ht, if_false, pure_apply]
      | _ => rfl

/-- What the tasks look like makes no difference to a configurator. -/
theorem effect_tasks (ts : Tasks) : effect { p with tasks := ts } = effect p := by
  funext body c
  cases c with
  | logFrom type source => cases source <;> rfl
  | _ => rfl

theorem foldlM_run {cs : List Configurator} (h : ∀ c ∈ cs, c.AsksNothing) (ask : ProviderId → ConfigM String)
    (body : TaskBody) : cs.foldlM (run ask) body p = .ok (cs.foldl (effect p) body) p := by
  induction cs generalizing body with
  | nil => rfl
  | cons c cs ih =>
    rw [List.foldlM_cons, bind_of_ok (run_of_asksNothing (h c (List.mem_cons_self ..)) ask body)]
    exact ih (fun c hc => h c (List.mem_cons_of_mem _ hc)) _

end Configurator

/-! ## One task -/

/-- The body a task has once it is realized. -/
def Task.realizedBody (p : Project) (t : Task) : TaskBody := t.pending.foldl (Configurator.effect p) t.body

theorem Task.realizedBody_tasks {p : Project} (ts : Tasks) :
    Task.realizedBody { p with tasks := ts } = Task.realizedBody p := by
  funext t
  rw [realizedBody, realizedBody, Configurator.effect_tasks]

/-- No configurator that waits computes a lazy value, and none waits for a realized task. -/
structure Tasks.SelfContained (r : Tasks) : Prop where
  asks : ∀ t ∈ r.entries, ∀ c ∈ t.pending, c.AsksNothing
  settled : ∀ t ∈ r.entries, t.realized = true → t.pending = []

namespace Project

/-- The task called `name` is there, and has its inputs once it is realized. -/
def HasInputs (p : Project) (name : String) : Prop :=
  ∃ body q, ConfigM.realize name p = .ok body q ∧ body.missingInput = none

/-- What realizing tasks leaves as it was: all but the tasks, and of these all but whether they are realized. -/
structure Realized (p q : Project) : Prop where
  elsewhere : q = { p with tasks := q.tasks }
  names : q.tasks.names = p.tasks.names
  edges : q.tasks.edges = p.tasks.edges
  bodies : ∀ name, (q.tasks.find? name).map (·.realizedBody p) = (p.tasks.find? name).map (·.realizedBody p)
  contained : p.tasks.SelfContained → q.tasks.SelfContained

namespace Realized

variable {p q r : Project}

theorem refl : Realized p p := ⟨rfl, rfl, rfl, fun _ => rfl, id⟩

theorem realizedBody_eq (h : Realized p q) : Task.realizedBody q = Task.realizedBody p := by
  rw [h.elsewhere]
  exact Task.realizedBody_tasks _

theorem trans (h : Realized p q) (h' : Realized q r) : Realized p r := by
  refine ⟨?_, h'.names.trans h.names, h'.edges.trans h.edges, ?_, fun hc => h'.contained (h.contained hc)⟩
  · have hq := h'.elsewhere
    rw [h.elsewhere] at hq
    exact hq
  · intro name
    have hb := h'.bodies name
    rw [h.realizedBody_eq] at hb
    exact hb.trans (h.bodies name)

theorem graph_eq (h : Realized p q) : q.tasks.graph = p.tasks.graph := by
  rw [Tasks.graph, Tasks.graph, h.names, h.edges]

end Realized

end Project

namespace ConfigM

open Project

variable {p q : Project} {name : String} {t : Task}

/-- Replacing the body of a task by its realized one, with nothing more to be done to it. -/
theorem realized_update (hc : p.tasks.SelfContained) (ht : p.tasks.find? name = some t) {f : Task → Task}
    (hf : ∀ u, f u = { u with realized := true, pending := [], body := t.realizedBody p }) :
    Realized p { p with tasks := p.tasks.update name f } := by
  have hn : ∀ u, (f u).name = u.name := fun u => by rw [hf u]
  refine ⟨rfl, Tasks.names_update hn, rfl, ?_, fun _ => ⟨?_, ?_⟩⟩
  · intro other
    rw [Tasks.find?_update hn]
    split
    · rename_i he
      subst he
      rw [ht, Option.map_some, Option.map_some, Option.map_some, hf t]
      rfl
    · rfl
  · intro u hu
    rcases Tasks.mem_entries_update hu with hu | ⟨v, -, -, rfl⟩
    · exact hc.asks u hu
    · rw [hf v]
      simp
  · intro u hu
    rcases Tasks.mem_entries_update hu with hu | ⟨v, -, -, rfl⟩
    · exact hc.settled u hu
    · rw [hf v]
      simp

section

variable {ask : ProviderId → ConfigM String}

theorem realizeWith_of_not_mem (h : name ∉ p.tasks.names) : realizeWith ask name p = .error (.taskNotFound name) p := by
  unfold realizeWith
  rw [bind_of_ok (get_apply p), Tasks.get_of_not_mem h]
  rfl

/-- A realized task is left as it is. -/
theorem realizeWith_of_realized (ht : p.tasks.find? name = some t) (hr : t.realized = true) :
    realizeWith ask name p = .ok t.body p := by
  unfold realizeWith
  rw [bind_of_ok (get_apply p), Tasks.get_of_find? ht]
  show (if t.realized = true then (pure t.body : ConfigM TaskBody) else _) p = _
  rw [if_pos hr]
  rfl

/-- Any other is marked, its configurators are run, and its body is replaced. -/
theorem realizeWith_eq (ht : p.tasks.find? name = some t) (hr : t.realized = false) :
    realizeWith ask name p = (t.pending.foldlM (Configurator.run ask) t.body >>= fun body => do
        modify fun p => { p with tasks := p.tasks.update name fun u => { u with body := body } }
        return body : ConfigM TaskBody)
      { p with tasks := p.tasks.update name fun u => { u with realized := true, pending := [] } } := by
  unfold realizeWith
  rw [bind_of_ok (get_apply p), Tasks.get_of_find? ht]
  show (if t.realized = true then (pure t.body : ConfigM TaskBody) else _) p = _
  rw [hr, if_neg Bool.false_ne_true, bind_of_ok (modify_apply _ p)]

/-- Realizing a task that waits for configurators of its own runs them on its body. -/
theorem realizeWith_of_unrealized (ht : p.tasks.find? name = some t) (hr : t.realized = false)
    (hasks : ∀ c ∈ t.pending, c.AsksNothing) :
    realizeWith ask name p = .ok (t.realizedBody p)
      { p with tasks := p.tasks.update name fun u => { u with realized := true, pending := [], body := t.realizedBody p } } := by
  rw [realizeWith_eq ht hr, bind_of_ok (Configurator.foldlM_run hasks _ _), Configurator.effect_tasks,
    bind_of_ok (modify_apply _ _)]
  show EStateM.Result.ok (t.realizedBody p) { p with
    tasks := (p.tasks.update name fun u => { u with realized := true, pending := [] }).update name fun u =>
      { u with body := t.realizedBody p } } = _
  rw [Tasks.update_update]
  · rfl
  · exact fun _ => rfl

variable (ask) in
/-- No other task changes, and nothing else. -/
theorem exists_realizeWith_of_unrealized (ht : p.tasks.find? name = some t) (hr : t.realized = false)
    (hasks : ∀ c ∈ t.pending, c.AsksNothing) :
    ∃ r, realizeWith ask name p = .ok (t.realizedBody p) { p with tasks := r } ∧
      r.find? name = some { t with realized := true, pending := [], body := t.realizedBody p } ∧
      ∀ other, other ≠ name → r.find? other = p.tasks.find? other := by
  have hname : ∀ u : Task, { u with realized := true, pending := [], body := t.realizedBody p }.name = u.name := by
    exact fun _ => rfl
  refine ⟨_, realizeWith_of_unrealized ht hr hasks, ?_, fun other hne => ?_⟩
  · rw [Tasks.find?_update hname, if_pos rfl, ht]
    rfl
  · rw [Tasks.find?_update hname, if_neg hne]

end

section

variable {cs : List Configurator}

theorem configure_of_not_mem (h : name ∉ p.tasks.names) : configure name cs p = .error (.taskNotFound name) p := by
  unfold configure
  rw [bind_of_ok (get_apply p), Tasks.get_of_not_mem h]
  rfl

/-- Configurators of its own run on the body of a realized task at once. -/
theorem configure_of_realized (ht : p.tasks.find? name = some t) (hr : t.realized = true)
    (hasks : ∀ c ∈ cs, c.AsksNothing) :
    configure name cs p = .ok ⟨⟩
      { p with tasks := p.tasks.update name fun u => { u with body := cs.foldl (Configurator.effect p) t.body } } := by
  unfold configure
  rw [bind_of_ok (get_apply p), Tasks.get_of_find? ht]
  show (if t.realized = true then _ else _ : ConfigM Unit) p = _
  rw [if_pos hr, bind_of_ok (Configurator.foldlM_run hasks _ _)]
  rfl

/-- An unrealized task lets them wait. -/
theorem configure_of_unrealized (ht : p.tasks.find? name = some t) (hr : t.realized = false) :
    configure name cs p = .ok ⟨⟩
      { p with tasks := p.tasks.update name fun u => { u with pending := u.pending ++ cs } } := by
  unfold configure
  rw [bind_of_ok (get_apply p), Tasks.get_of_find? ht]
  show (if t.realized = true then _ else _ : ConfigM Unit) p = _
  rw [hr, if_neg Bool.false_ne_true]
  rfl

end

theorem realize_of_not_mem (h : name ∉ p.tasks.names) : realize name p = .error (.taskNotFound name) p :=
  realizeWith_of_not_mem h

theorem realize_of_unrealized (ht : p.tasks.find? name = some t) (hr : t.realized = false)
    (hasks : ∀ c ∈ t.pending, c.AsksNothing) :
    realize name p = .ok (t.realizedBody p)
      { p with tasks := p.tasks.update name fun u => { u with realized := true, pending := [], body := t.realizedBody p } } :=
  realizeWith_of_unrealized ht hr hasks

/-- If only one configurator waits, it is run on the body. -/
theorem realize_of_one {c : Configurator} (ht : p.tasks.find? name = some t) (hr : t.realized = false)
    (hpending : t.pending = [c]) (hasks : c.AsksNothing) : ∃ q, realize name p = .ok (c.effect p t.body) q := by
  have hall : ∀ c' ∈ t.pending, c'.AsksNothing := by
    rw [hpending]
    rintro c' hc'
    rwa [List.mem_singleton.mp hc']
  have hbody : t.realizedBody p = c.effect p t.body := by
    rw [Task.realizedBody, hpending]
    rfl
  exact ⟨_, hbody ▸ realize_of_unrealized ht hr hall⟩

/-- Realizing a task gives its realized body and changes nothing that can be seen elsewhere. -/
theorem realize_eq (hc : p.tasks.SelfContained) (ht : p.tasks.find? name = some t) :
    ∃ q, realize name p = .ok (t.realizedBody p) q ∧ Realized p q := by
  cases hr : t.realized with
  | true =>
    have hbody : t.realizedBody p = t.body := by
      rw [Task.realizedBody, hc.settled t (Tasks.mem_of_find? ht) hr]
      rfl
    exact ⟨p, hbody ▸ realizeWith_of_realized ht hr, .refl⟩
  | false =>
    exact ⟨_, realize_of_unrealized ht hr (hc.asks t (Tasks.mem_of_find? ht)), realized_update hc ht fun _ => rfl⟩

theorem hasInputs_iff (hc : p.tasks.SelfContained) :
    p.HasInputs name ↔ ∃ t, p.tasks.find? name = some t ∧ (t.realizedBody p).missingInput = none := by
  constructor
  · rintro ⟨body, q, hr, hm⟩
    cases ht : p.tasks.find? name with
    | none =>
      rw [realize_of_not_mem (Tasks.find?_eq_none_iff.mp ht)] at hr
      cases hr
    | some t =>
      obtain ⟨q', hr', -⟩ := realize_eq hc ht
      rw [hr'] at hr
      cases hr
      exact ⟨t, rfl, hm⟩
  · rintro ⟨t, ht, hm⟩
    obtain ⟨q, hr, -⟩ := realize_eq hc ht
    exact ⟨_, q, hr, hm⟩

end ConfigM

namespace Project

variable {p q : Project} {name : String}

theorem hasInputs_iff_map (hc : p.tasks.SelfContained) :
    p.HasInputs name ↔ ((p.tasks.find? name).map (·.realizedBody p)).any (·.missingInput.isNone) = true := by
  rw [ConfigM.hasInputs_iff hc]
  cases p.tasks.find? name <;> simp

/-- A task has its inputs or not, whichever tasks are realized before it. -/
theorem Realized.hasInputs_iff (h : Realized p q) (hc : p.tasks.SelfContained) :
    q.HasInputs name ↔ p.HasInputs name := by
  rw [hasInputs_iff_map hc, hasInputs_iff_map (h.contained hc), h.realizedBody_eq, h.bodies]

end Project

/-! ## All tasks -/

namespace ConfigM

open Project

variable {p : Project}

/-- Realizing and checking tasks one after another ends with the last one, or with the first that lacks an
    input. -/
theorem forM_realizeChecked (hc : p.tasks.SelfContained) (names : List String)
    (hn : ∀ name ∈ names, name ∈ p.tasks.names) :
    (∃ q, names.forM realizeChecked p = .ok ⟨⟩ q ∧ Realized p q ∧ ∀ name ∈ names, p.HasInputs name) ∨
      ∃ name property q, names.forM realizeChecked p = .error (.missingTaskInput name property) q ∧ name ∈ names ∧
        ¬ p.HasInputs name ∧ Realized p q := by
  induction names generalizing p with
  | nil => exact .inl ⟨p, rfl, .refl, by simp⟩
  | cons name names ih =>
    obtain ⟨t, ht⟩ := Tasks.exists_find?_iff.mpr (hn name (List.mem_cons_self ..))
    obtain ⟨q, hr, hq⟩ := realize_eq hc ht
    cases hm : (t.realizedBody p).missingInput with
    | some property =>
      have he : realizeChecked name p = .error (.missingTaskInput name property) q := by
        rw [realizeChecked, bind_of_ok hr, hm]
        rfl
      refine .inr ⟨name, property, q, ?_, List.mem_cons_self .., ?_, hq⟩
      · show ((realizeChecked name) >>= fun _ => names.forM realizeChecked) p = _
        rw [bind_of_error he]
      · intro h
        obtain ⟨t', ht', hm'⟩ := (hasInputs_iff hc).mp h
        rw [ht] at ht'
        cases ht'
        rw [hm] at hm'
        cases hm'
    | none =>
      have he : realizeChecked name p = .ok ⟨⟩ q := by
        rw [realizeChecked, bind_of_ok hr, hm]
        rfl
      have hstep : (name :: names).forM realizeChecked p = names.forM realizeChecked q := by
        show ((realizeChecked name) >>= fun _ => names.forM realizeChecked) p = _
        rw [bind_of_ok he]
      have hhere : p.HasInputs name := (hasInputs_iff hc).mpr ⟨t, ht, hm⟩
      have hrest : ∀ other ∈ names, other ∈ q.tasks.names := fun other ho => by
        rw [hq.names]
        exact hn other (List.mem_cons_of_mem _ ho)
      rw [hstep]
      rcases ih (hq.contained hc) hrest with ⟨r, hok, hr, hall⟩ | ⟨other, property, r, herr, ho, hmiss, hr⟩
      · refine .inl ⟨r, hok, hq.trans hr, fun other ho => ?_⟩
        rcases List.mem_cons.mp ho with rfl | ho
        · exact hhere
        · exact (hq.hasInputs_iff hc).mp (hall other ho)
      · refine .inr ⟨other, property, r, herr, List.mem_cons_of_mem _ ho, fun h => hmiss ?_, hq.trans hr⟩
        exact (hq.hasInputs_iff hc).mpr h

/-- Finalizing a project fails for an input that is missing, or else goes by what the sort says of the tasks. -/
theorem finalize_cases (hc : p.tasks.SelfContained) :
    ∃ q, Realized p q ∧
      ((∃ name property, finalize p = .error (.missingTaskInput name property) q ∧ name ∈ p.tasks.names ∧
          ¬ p.HasInputs name) ∨
        (∀ name ∈ p.tasks.names, p.HasInputs name) ∧
          ((∃ order, finalize p = .ok order q ∧ p.tasks.graph.topologicalSort = .ok order) ∨
            ∃ name, finalize p = .error (.taskCycle name) q ∧ p.tasks.graph.topologicalSort = .error name)) := by
  rw [finalize, bind_of_ok (get_apply p)]
  rcases forM_realizeChecked hc p.tasks.names (fun _ h => h) with ⟨q, hok, hq, hall⟩ | ⟨name, property, q, herr, hn, hmiss, hq⟩
  · refine ⟨q, hq, .inr ⟨hall, ?_⟩⟩
    rw [bind_of_ok hok, executionOrder, bind_of_ok (get_apply q), hq.graph_eq]
    cases p.tasks.graph.topologicalSort with
    | ok order => exact .inl ⟨order, rfl, rfl⟩
    | error name => exact .inr ⟨name, rfl, rfl⟩
  · refine ⟨q, hq, .inl ⟨name, property, ?_, hn, hmiss⟩⟩
    rw [bind_of_error herr]

/-- A project whose tasks have their inputs and can be put in order is finalized, and no other; the order is one in
    which every dependency points forward. -/
theorem finalize_spec (hs : p.tasks.Sound) (hc : p.tasks.SelfContained) :
    ((∃ order q, finalize p = .ok order q) ↔ (∀ name ∈ p.tasks.names, p.HasInputs name) ∧ p.tasks.graph.Acyclic) ∧
      ∀ order q, finalize p = .ok order q → p.tasks.graph.TopologicalOrder order := by
  obtain ⟨hnode, horder⟩ := Digraph.topologicalSort_spec hs.wellFormed
  rw [← Digraph.exists_topologicalSort_iff hs.wellFormed]
  obtain ⟨q, -, ⟨name, property, hfin, hn, hmiss⟩ | ⟨hall, ⟨order, hfin, hsort⟩ | ⟨name, hfin, hsort⟩⟩⟩ := finalize_cases hc
  all_goals rw [hfin]
  · refine ⟨⟨?_, fun h => absurd (h.1 name hn) hmiss⟩, ?_⟩
    · rintro ⟨order, r, h⟩
      cases h
    · intro order r h
      cases h
  · refine ⟨⟨fun _ => ⟨hall, order, hsort⟩, fun _ => ⟨order, q, rfl⟩⟩, fun order' r h => ?_⟩
    cases h
    exact horder order hsort
  · refine ⟨⟨?_, ?_⟩, ?_⟩
    · rintro ⟨order, r, h⟩
      cases h
    · rintro ⟨-, order, h⟩
      rw [hsort] at h
      cases h
    · intro order r h
      cases h

end ConfigM

end BuildGraph

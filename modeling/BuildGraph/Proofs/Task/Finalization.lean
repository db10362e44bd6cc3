/-
  BuildGraph.Proofs.Task.Finalization: how far a project is finalized when an input is missing.

  Finalizing realizes task after task and stops at the first that lacks an input, so it leaves a part of the
  registry realized. Which part can be told without following the run: where configurators touch nothing but their
  own body, realizing some tasks amounts to settling them (`Project.settle`), whatever was realized before, and
  settling tasks twice or in another order makes no difference. So a run is compared with the next one by comparing
  the sets of tasks they settle.

  - `finalize_of_hasInputs` / `finalize_of_lacksInput`: what finalizing gives and leaves.
  - `Scheduled.finalize_first_missing`: the first task that lacks an input is reported, and the tasks up to it are
    realized; finalizing again makes no difference, and once that task has its input, those before it do not come
    up again.
-/

import BuildGraph.Proofs.Task.Cycle
import BuildGraph.Proofs.Task.Schedule

namespace BuildGraph

open Operation

/-- A task once it is realized. -/
def Task.settled (p : Project) (t : Task) : Task :=
  { t with realized := true, pending := [], body := t.realizedBody p }

namespace Project

variable {p q : Project} {name property : String} {names others : List String} {t : Task}

/-- The task called `name` is there, and reports that `property` is missing once it is realized. -/
def LacksInput (p : Project) (name property : String) : Prop :=
  ∃ body q, ConfigM.realize name p = .ok body q ∧ body.missingInput = some property

/-! ## Settling tasks -/

/-- Realizes the tasks in `names`. -/
def settle (p : Project) (names : List String) : Project :=
  { p with
    tasks := { p.tasks with entries := p.tasks.entries.map fun t => if t.name ∈ names then t.settled p else t } }

theorem name_settled_ite (p : Project) (names : List String) (t : Task) :
    (if t.name ∈ names then t.settled p else t).name = t.name := by
  split <;> rfl

theorem names_settle (p : Project) (names : List String) : (p.settle names).tasks.names = p.tasks.names :=
  Named.map_map (p.name_settled_ite names)

theorem graph_settle (p : Project) (names : List String) : (p.settle names).tasks.graph = p.tasks.graph :=
  congrArg (Digraph.mk · p.tasks.edges) (p.names_settle names)

theorem find?_settle (p : Project) (names : List String) (name : String) :
    (p.settle names).tasks.find? name =
      (p.tasks.find? name).map fun t => if name ∈ names then t.settled p else t := by
  refine (Named.find?_map (p.name_settled_ite names) name).trans (Option.map_congr fun t ht => ?_)
  rw [Tasks.name_of_find? (r := p.tasks) ht]

theorem realizedBody_settle (p : Project) (names : List String) :
    Task.realizedBody (p.settle names) = Task.realizedBody p := Task.realizedBody_tasks _

/-- Only which tasks are settled matters. -/
theorem settle_congr (h : ∀ name, name ∈ names ↔ name ∈ others) : p.settle names = p.settle others := by
  simp only [settle, h]

theorem settle_settle (p : Project) (names others : List String) :
    (p.settle names).settle others = p.settle (names ++ others) := by
  have hsettled : Task.settled (p.settle names) = Task.settled p := by
    funext t
    rw [Task.settled, Task.settled, realizedBody_settle]
  rw [settle, hsettled]
  unfold settle
  dsimp only
  rw [List.map_map]
  congr 2
  refine List.map_congr_left fun t _ => ?_
  rw [Function.comp_apply]
  by_cases hn : t.name ∈ names <;> by_cases ho : t.name ∈ others <;> simp [hn, ho, Task.settled, Task.realizedBody]

theorem settle_nil (p : Project) : p.settle [] = p := by simp [settle]

/-- Settling tasks that are settled changes nothing. -/
theorem settle_again (p : Project) (names : List String) : (p.settle names).settle names = p.settle names :=
  (p.settle_settle names names).trans (settle_congr fun name => by simp)

theorem contained_settle (h : p.tasks.SelfContained) (names : List String) : (p.settle names).tasks.SelfContained := by
  constructor
  all_goals
    intro t ht
    obtain ⟨u, hu, rfl⟩ := List.mem_map.mp ht
    split
  · simp [Task.settled]
  · exact h.asks u hu
  · exact fun _ => rfl
  · exact h.settled u hu

/-- Realizing a task settles it, whether it was realized before or not. -/
theorem realize_settles (hn : p.tasks.names.Nodup) (hc : p.tasks.SelfContained) (ht : p.tasks.find? name = some t) :
    ConfigM.realize name p = .ok (t.realizedBody p) (p.settle [name]) := by
  have htask : ∀ u ∈ p.tasks.entries, u.name = name → u = t := fun _ => Tasks.eq_of_find? hn ht
  cases hr : t.realized with
  | true =>
    have hpending := hc.settled t (Tasks.mem_of_find? ht) hr
    have hbody : t.realizedBody p = t.body := by
      rw [Task.realizedBody, hpending]
      rfl
    have hentries : (p.settle [name]).tasks.entries = p.tasks.entries := by
      refine (List.map_congr_left fun u hu => ?_).trans (List.map_id _)
      by_cases hname : u.name = name
      · rw [if_pos (List.mem_singleton.mpr hname), htask u hu hname, Task.settled, hbody, ← hpending, ← hr, id_eq]
      · rw [if_neg (List.mem_singleton.not.mpr hname), id_eq]
    have hsame : p.settle [name] = p := by
      rw [settle, show List.map _ _ = p.tasks.entries from hentries]
    rw [hsame, hbody]
    exact ConfigM.realizeWith_of_realized ht hr
  | false =>
    have hentries : (p.tasks.update name fun u =>
        { u with realized := true, pending := [], body := t.realizedBody p }).entries = (p.settle [name]).tasks.entries := by
      refine List.map_congr_left fun u hu => ?_
      by_cases hname : u.name = name
      · rw [if_pos hname, if_pos (List.mem_singleton.mpr hname), htask u hu hname, Task.settled]
      · rw [if_neg hname, if_neg (List.mem_singleton.not.mpr hname)]
    rw [ConfigM.realize_of_unrealized ht hr (hc.asks t (Tasks.mem_of_find? ht))]
    exact congrArg (fun entries => EStateM.Result.ok _ { p with tasks := { p.tasks with entries := entries } }) hentries

/-! ## Inputs -/

theorem lacksInput_iff (hn : p.tasks.names.Nodup) (hc : p.tasks.SelfContained) :
    p.LacksInput name property ↔ ∃ t, p.tasks.find? name = some t ∧ (t.realizedBody p).missingInput = some property := by
  constructor
  · rintro ⟨body, q, hr, hm⟩
    cases ht : p.tasks.find? name with
    | none =>
      rw [ConfigM.realize_of_not_mem (Tasks.find?_eq_none_iff.mp ht)] at hr
      cases hr
    | some t =>
      rw [realize_settles hn hc ht] at hr
      cases hr
      exact ⟨t, rfl, hm⟩
  · rintro ⟨t, ht, hm⟩
    exact ⟨_, _, realize_settles hn hc ht, hm⟩

theorem HasInputs.not_lacksInput (h : p.HasInputs name) : ¬ p.LacksInput name property := by
  rintro ⟨body, q, hr, hm⟩
  obtain ⟨body', q', hr', hm'⟩ := h
  cases hr.symm.trans hr'
  cases hm.symm.trans hm'

/-- A task that is there either has its inputs or lacks one. -/
theorem lacksInput_of_not_hasInputs (hn : p.tasks.names.Nodup) (hc : p.tasks.SelfContained) (hname : name ∈ p.tasks.names)
    (h : ¬ p.HasInputs name) : ∃ property, p.LacksInput name property := by
  obtain ⟨t, ht⟩ := Tasks.exists_find?_iff.mpr hname
  cases hm : (t.realizedBody p).missingInput with
  | none => exact absurd ((ConfigM.hasInputs_iff hc).mpr ⟨t, ht, hm⟩) h
  | some property => exact ⟨property, (lacksInput_iff hn hc).mpr ⟨t, ht, hm⟩⟩

/-- Settling tasks makes no difference to the body a task has once it is realized. -/
theorem bodies_settle (p : Project) (names : List String) (name : String) :
    ((p.settle names).tasks.find? name).map (·.realizedBody (p.settle names)) =
      (p.tasks.find? name).map (·.realizedBody p) := by
  rw [find?_settle, Option.map_map, realizedBody_settle]
  refine Option.map_congr fun t _ => ?_
  rw [Function.comp_apply]
  split <;> rfl

theorem hasInputs_settle (hc : p.tasks.SelfContained) (names : List String) :
    (p.settle names).HasInputs name ↔ p.HasInputs name := by
  rw [hasInputs_iff_map hc, hasInputs_iff_map (contained_settle hc names), bodies_settle]

theorem lacksInput_settle (hn : p.tasks.names.Nodup) (hc : p.tasks.SelfContained) (names : List String) :
    (p.settle names).LacksInput name property ↔ p.LacksInput name property := by
  have hbodies := p.bodies_settle names name
  rw [lacksInput_iff hn hc, lacksInput_iff (p.names_settle names ▸ hn) (contained_settle hc names)]
  have hmap : ∀ (o : Option Task) (f : Task → TaskBody), (∃ t, o = some t ∧ (f t).missingInput = some property) ↔
      (o.map f).any (·.missingInput = some property) = true := by
    intro o f
    cases o <;> simp
  rw [hmap, hmap, hbodies]

/-- The first task of a registry that lacks an input, if any does. -/
theorem first_lacking (hn : p.tasks.names.Nodup) (hc : p.tasks.SelfContained) :
    (∀ name ∈ p.tasks.names, p.HasInputs name) ∨ ∃ before name rest property,
      p.tasks.names = before ++ name :: rest ∧ (∀ other ∈ before, p.HasInputs other) ∧ p.LacksInput name property := by
  classical
  cases hfirst : p.tasks.names.find? fun name => decide (¬ p.HasInputs name) with
  | none =>
    refine .inl fun name hname => ?_
    have := List.find?_eq_none.mp hfirst name hname
    simpa using this
  | some name =>
    obtain ⟨hname, before, rest, hsplit, hbefore⟩ := List.find?_eq_some_iff_append.mp hfirst
    have hmem : name ∈ p.tasks.names := by simp [hsplit]
    obtain ⟨property, hlacks⟩ := lacksInput_of_not_hasInputs hn hc hmem (by simpa using hname)
    refine .inr ⟨before, name, rest, property, hsplit, fun other ho => ?_, hlacks⟩
    have := hbefore other ho
    simpa using this

end Project

namespace ConfigM

open Project

variable {p q : Project} {name property : String} {names before rest : List String} {cs : List Configurator}

/-! ## One run -/

theorem realizeChecked_of_hasInputs (hn : p.tasks.names.Nodup) (hc : p.tasks.SelfContained) (h : p.HasInputs name) :
    realizeChecked name p = .ok ⟨⟩ (p.settle [name]) := by
  obtain ⟨t, ht, hm⟩ := (hasInputs_iff hc).mp h
  rw [realizeChecked, bind_of_ok (realize_settles hn hc ht), hm]
  rfl

theorem realizeChecked_of_lacksInput (hn : p.tasks.names.Nodup) (hc : p.tasks.SelfContained) (h : p.LacksInput name property) :
    realizeChecked name p = .error (.missingTaskInput name property) (p.settle [name]) := by
  obtain ⟨t, ht, hm⟩ := (lacksInput_iff hn hc).mp h
  rw [realizeChecked, bind_of_ok (realize_settles hn hc ht), hm]
  rfl

theorem forM_realizeChecked_of_hasInputs (hn : p.tasks.names.Nodup) (hc : p.tasks.SelfContained)
    (h : ∀ name ∈ names, p.HasInputs name) : names.forM realizeChecked p = .ok ⟨⟩ (p.settle names) := by
  induction names generalizing p with
  | nil =>
    rw [p.settle_nil]
    rfl
  | cons name names ih =>
    have hfirst := realizeChecked_of_hasInputs hn hc (h name (List.mem_cons_self ..))
    have hrest := ih (p := p.settle [name]) (p.names_settle _ ▸ hn) (contained_settle hc _) fun other ho =>
      (hasInputs_settle hc _).mpr (h other (List.mem_cons_of_mem _ ho))
    show (realizeChecked name >>= fun _ => names.forM realizeChecked) p = _
    rw [bind_of_ok hfirst, hrest, p.settle_settle]
    rfl

/-- If all tasks have their inputs, all are settled, and the result is what the sort says. -/
theorem finalize_of_hasInputs (hn : p.tasks.names.Nodup) (hc : p.tasks.SelfContained)
    (h : ∀ name ∈ p.tasks.names, p.HasInputs name) :
    finalize p = match p.tasks.graph.topologicalSort with
      | .ok order => .ok order (p.settle p.tasks.names)
      | .error name => .error (.taskCycle name) (p.settle p.tasks.names) := by
  rw [finalize, bind_of_ok (get_apply p), bind_of_ok (forM_realizeChecked_of_hasInputs hn hc h), executionOrder,
    bind_of_ok (get_apply _), graph_settle]
  cases p.tasks.graph.topologicalSort <;> rfl

/-- The first task that lacks an input is reported, and the tasks up to it are settled. -/
theorem finalize_of_lacksInput (hn : p.tasks.names.Nodup) (hc : p.tasks.SelfContained)
    (hsplit : p.tasks.names = before ++ name :: rest) (hbefore : ∀ other ∈ before, p.HasInputs other)
    (h : p.LacksInput name property) :
    finalize p = .error (.missingTaskInput name property) (p.settle (before ++ [name])) := by
  have hhere := realizeChecked_of_lacksInput (p := p.settle before) (p.names_settle _ ▸ hn) (contained_settle hc _)
    ((lacksInput_settle hn hc before).mpr h)
  rw [p.settle_settle] at hhere
  have hsequence : (before ++ name :: rest).forM realizeChecked =
      before.forM realizeChecked >>= fun _ => (name :: rest).forM realizeChecked := List.forM_append
  rw [finalize, bind_of_ok (get_apply p), hsplit, hsequence]
  refine bind_of_error ?_
  rw [bind_of_ok (forM_realizeChecked_of_hasInputs hn hc hbefore)]
  exact bind_of_error hhere

/-- A task is reported exactly if it is the first that lacks an input. -/
theorem finalize_eq_missing_iff (hn : p.tasks.names.Nodup) (hc : p.tasks.SelfContained) :
    finalize p = .error (.missingTaskInput name property) q ↔ ∃ before rest, p.tasks.names = before ++ name :: rest ∧
      (∀ other ∈ before, p.HasInputs other) ∧ p.LacksInput name property ∧ q = p.settle (before ++ [name]) := by
  constructor
  · intro h
    rcases first_lacking hn hc with hall | ⟨before, other, rest, property', hsplit, hbefore, hlacks⟩
    · rw [finalize_of_hasInputs hn hc hall] at h
      split at h <;> cases h
    · rw [finalize_of_lacksInput hn hc hsplit hbefore hlacks] at h
      cases h
      exact ⟨before, rest, hsplit, hbefore, hlacks, rfl⟩
  · rintro ⟨before, rest, hsplit, hbefore, hlacks, rfl⟩
    exact finalize_of_lacksInput hn hc hsplit hbefore hlacks

/-! ## Another run -/

/-- If the tasks in front have their inputs, a task that is reported comes after them. -/
theorem finalize_beyond {front : List String} (hn : p.tasks.names.Nodup) (hc : p.tasks.SelfContained)
    (hsplit : p.tasks.names = front ++ rest) (hfront : ∀ name ∈ front, p.HasInputs name) :
    (∃ order q, finalize p = .ok order q) ∨ (∃ name q, finalize p = .error (.taskCycle name) q) ∨
      ∃ name ∈ rest, ∃ property q, finalize p = .error (.missingTaskInput name property) q := by
  rcases first_lacking hn hc with hall | ⟨before, name, after, property, hsplit', hbefore, hlacks⟩
  · rw [finalize_of_hasInputs hn hc hall]
    cases p.tasks.graph.topologicalSort with
    | ok order => exact .inl ⟨order, _, rfl⟩
    | error name => exact .inr (.inl ⟨name, _, rfl⟩)
  · have hmem : name ∈ front ++ rest := by simp [← hsplit, hsplit']
    have hname : name ∈ rest := (List.mem_append.mp hmem).resolve_left fun hf => (hfront name hf).not_lacksInput hlacks
    exact .inr (.inr ⟨name, hname, property, _, finalize_of_lacksInput hn hc hsplit' hbefore hlacks⟩)

/-- Finalizing a second time gives the same and changes nothing. -/
theorem finalize_again (hn : p.tasks.names.Nodup) (hc : p.tasks.SelfContained) :
    finalize (after finalize p) = finalize p := by
  have hn' : ∀ names, (p.settle names).tasks.names.Nodup := fun names => p.names_settle names ▸ hn
  rcases first_lacking hn hc with hall | ⟨before, name, rest, property, hsplit, hbefore, hlacks⟩
  · have hfirst := finalize_of_hasInputs hn hc hall
    have hleft : after finalize p = p.settle p.tasks.names := by
      unfold after
      rw [hfirst]
      cases p.tasks.graph.topologicalSort <;> rfl
    have hsecond := finalize_of_hasInputs (p := p.settle p.tasks.names) (hn' _) (contained_settle hc _) fun name hname =>
      (hasInputs_settle hc _).mpr (hall name (p.names_settle _ ▸ hname))
    rw [hleft, hsecond, hfirst, graph_settle, names_settle, settle_again]
  · have hfirst := finalize_of_lacksInput hn hc hsplit hbefore hlacks
    have hsecond := finalize_of_lacksInput (p := p.settle (before ++ [name])) (hn' _) (contained_settle hc _)
      ((p.names_settle _).trans hsplit) (fun other ho => (hasInputs_settle hc _).mpr (hbefore other ho))
      ((lacksInput_settle hn hc _).mpr hlacks)
    rw [after_of_error hfirst, hsecond, hfirst, settle_again]

/-- Configuring a task changes no other. -/
theorem configure_spares (hcs : ∀ c ∈ cs, c.AsksNothing) {u : Unit} (h : configure name cs p = .ok u q) :
    q = { p with tasks := q.tasks } ∧ q.tasks.names = p.tasks.names ∧
      ∀ other, other ≠ name → q.tasks.find? other = p.tasks.find? other := by
  obtain ⟨f, hf, rfl⟩ : ∃ f : Task → Task, (∀ t, (f t).name = t.name) ∧
      q = { p with tasks := p.tasks.update name f } := by
    cases ht : p.tasks.find? name with
    | none =>
      rw [configure_of_not_mem (Tasks.find?_eq_none_iff.mp ht)] at h
      cases h
    | some t =>
      cases hr : t.realized with
      | true =>
        rw [configure_of_realized ht hr hcs] at h
        cases h
        exact ⟨_, by exact fun _ => rfl, rfl⟩
      | false =>
        rw [configure_of_unrealized ht hr] at h
        cases h
        exact ⟨_, by exact fun _ => rfl, rfl⟩
  exact ⟨rfl, Tasks.names_update hf, fun other hne => (Tasks.find?_update hf other).trans (if_neg hne)⟩

end ConfigM

namespace Project

variable {p q : Project} {name : String}

/-- Whether a task has its inputs depends on no other task. -/
theorem hasInputs_of_find?_eq (hc : p.tasks.SelfContained) (hc' : q.tasks.SelfContained)
    (hq : q = { p with tasks := q.tasks }) (hfind : q.tasks.find? name = p.tasks.find? name) (h : p.HasInputs name) :
    q.HasInputs name := by
  have hbody : Task.realizedBody q = Task.realizedBody p := by
    rw [hq]
    exact Task.realizedBody_tasks _
  rw [hasInputs_iff_map hc] at h
  rw [hasInputs_iff_map hc', hfind, hbody]
  exact h

end Project

namespace Scheduled

open Project

variable {p : Project} {pairs : List (String × String)}

/-- A task that asks for no lazy value is realized alike, whatever would answer it. -/
theorem realizeWith_eq_realize (hc : p.tasks.SelfContained) (ask : ProviderId → ConfigM String) (name : String) :
    ConfigM.realizeWith ask name p = ConfigM.realize name p := by
  cases ht : p.tasks.find? name with
  | none =>
    have hn := Tasks.find?_eq_none_iff.mp ht
    rw [ConfigM.realizeWith_of_not_mem hn, ConfigM.realize_of_not_mem hn]
  | some t =>
    cases hr : t.realized with
    | true => exact (ConfigM.realizeWith_of_realized ht hr).trans (ConfigM.realizeWith_of_realized ht hr).symm
    | false =>
      have hasks := hc.asks t (Tasks.mem_of_find? ht)
      rw [ConfigM.realizeWith_of_unrealized ht hr hasks, ConfigM.realize_of_unrealized ht hr hasks]

/-- Computing a lazy value realizes tasks at most. -/
theorem evaluate (h : Scheduled p pairs) (id : ProviderId) : Scheduled (after (ConfigM.evaluate id) p) pairs := by
  have hE : Evaluating (Preserves fun p => Scheduled p pairs) := {
    preserves_frame _ with
    realizeWith := fun {ask} _ name p hp => by
      have hrealize := realizeWith_eq_realize hp.declared.contained ask name
      unfold after
      rw [hrealize]
      exact hp.realize name
    resolve := fun _ _ _ hp => hp.elsewhere rfl }
  exact hE.evaluate id p h

/-- A missing input is reported exactly of the first task in order of registration that lacks one, whatever depends on
    what. The tasks up to it are then realized, and those after it are as they were. Finalizing again gives the same
    and changes nothing. Once the task is configured so that it has its input, a task that is reported comes after
    it. -/
theorem finalize_first_missing (h : Scheduled p pairs) :
    (∀ name property, (∃ q, ConfigM.finalize p = .error (.missingTaskInput name property) q) ↔
      ∃ before rest, p.tasks.names = before ++ name :: rest ∧ (∀ other ∈ before, p.HasInputs other) ∧
        p.LacksInput name property) ∧
    ConfigM.finalize (after ConfigM.finalize p) = ConfigM.finalize p ∧
    ∀ name property q before rest, ConfigM.finalize p = .error (.missingTaskInput name property) q →
      p.tasks.names = before ++ name :: rest →
        (∀ other ∈ before ++ [name], q.tasks.isRealized other = .ok true) ∧
        (∀ other ∈ rest, q.tasks.find? other = p.tasks.find? other) ∧
        ∀ cs r, (∀ c ∈ cs, c.AsksNothing) → ConfigM.configure name cs q = .ok ⟨⟩ r → r.HasInputs name →
          (∃ order s, ConfigM.finalize r = .ok order s) ∨ (∃ other s, ConfigM.finalize r = .error (.taskCycle other) s) ∨
            ∃ other ∈ rest, ∃ property s, ConfigM.finalize r = .error (.missingTaskInput other property) s := by
  have hd := h.declared
  have hn := hd.sound.nodup
  have hc := hd.contained
  refine ⟨fun name property => ?_, ConfigM.finalize_again hn hc, fun name property q before rest hq hsplit => ?_⟩
  · simp only [ConfigM.finalize_eq_missing_iff hn hc]
    constructor
    · rintro ⟨q, before, rest, hsplit, hbefore, hlacks, -⟩
      exact ⟨before, rest, hsplit, hbefore, hlacks⟩
    · rintro ⟨before, rest, hsplit, hbefore, hlacks⟩
      exact ⟨_, before, rest, hsplit, hbefore, hlacks, rfl⟩
  obtain ⟨before', rest', hsplit', hbefore, -, hleft⟩ := (ConfigM.finalize_eq_missing_iff hn hc).mp hq
  have hnodup := hsplit ▸ hn
  obtain ⟨hfirst, hlater, hapart⟩ := List.nodup_append.mp hnodup
  obtain ⟨hself, -⟩ := List.nodup_cons.mp hlater
  have hnew : name ∉ before := fun hb => hapart name hb name (List.mem_cons_self ..) rfl
  -- no name is registered twice, so the registry is split at a name in one way
  obtain ⟨rfl, -, rfl⟩ := (List.append_cons_inj_of_notMem hnew hself).mp (hsplit.symm.trans hsplit')
  refine ⟨fun other ho => ?_, fun other ho => ?_, fun cs r hcs hr hinputs => ?_⟩
  · have hmem : other ∈ p.tasks.names := by
      rw [hsplit, List.append_cons]
      exact List.mem_append_left _ ho
    obtain ⟨t, ht⟩ := Tasks.exists_find?_iff.mpr hmem
    refine Tasks.isRealized_iff.mpr ⟨t.settled p, ?_, rfl⟩
    rw [hleft, find?_settle, ht, Option.map_some, if_pos ho]
  · have hout : other ∉ before ++ [name] := by
      rw [List.mem_append, List.mem_singleton]
      rintro (hb | rfl)
      · exact hapart other hb other (List.mem_cons_of_mem _ ho) rfl
      · exact hself ho
    simp [hleft, find?_settle, hout]
  · have hq' : q.tasks.SelfContained := hleft ▸ contained_settle hc _
    have hscheduled : Scheduled r pairs := by
      have := (after_of_error hq ▸ h.finalize).configure name hcs
      rwa [after_of_ok hr] at this
    have hr' := hscheduled.declared
    obtain ⟨helsewhere, hnames, hothers⟩ := ConfigM.configure_spares hcs hr
    have hsplit'' : r.tasks.names = (before ++ [name]) ++ rest := by
      rw [hnames, hleft, names_settle, hsplit, List.append_cons]
    refine ConfigM.finalize_beyond hr'.sound.nodup hr'.contained hsplit'' fun other ho => ?_
    rcases List.mem_append.mp ho with hb | hb
    · -- the tasks before it were left as they were
      have hne : other ≠ name := fun he => hnew (he ▸ hb)
      refine hasInputs_of_find?_eq hq' hr'.contained helsewhere (hothers other hne) ?_
      rw [hleft]
      exact (hasInputs_settle hc _).mpr (hbefore other hb)
    · rw [List.mem_singleton.mp hb]
      exact hinputs

/-- Package and publication wait for each other, but what is reported first is that the package lacks its input. The
    publication comes after it and was realized before, when a lazy value was read from it; it stays as it is. Once the
    package has its input, the cycle is reported. -/
theorem finalize_first_missing_of_package :
    let type : CustomType := ⟨"Bundle", true⟩
    let p : Project := { (default : Project) with
      tasks :=
        { entries := [{ name := "compile", body := .custom type {} },
            { name := "package", body := .custom type { needs := some "input" } },
            { name := "publish", body := .custom type {}, realized := true }]
          edges := [("package", "publish"), ("publish", "package")] } }
    ∃ q r s, Scheduled p [("package", "publish"), ("publish", "package")] ∧
      ConfigM.finalize p = .error (.missingTaskInput "package" "input") q ∧
      ConfigM.finalize q = .error (.missingTaskInput "package" "input") q ∧
      q.tasks.isRealized "compile" = .ok true ∧ q.tasks.find? "publish" = p.tasks.find? "publish" ∧
      ConfigM.configure "package" [.change (.custom type fun t => { t with needs := none })] q = .ok ⟨⟩ r ∧
      ConfigM.finalize r = .error (.taskCycle "publish") s := by
  intro type p
  let stamp : Provider := { thunk := .fromTask "publish" fun _ => .text "1.0" }
  have hregistered : Scheduled { (default : Project) with
      tasks :=
        { entries := [{ name := "compile", body := .custom type {} },
            { name := "package", body := .custom type { needs := some "input" } },
            { name := "publish", body := .custom type {} }] }
      providers := [stamp] } [] :=
    @register _ _ [] "publish" (.custom type {}) (@register _ _ [] "package" (.custom type { needs := some "input" })
      (@register _ _ [] "compile" (.custom type {}) (start (p := { (default : Project) with providers := [stamp] }) rfl)
        (by simp)) (by simp)) (by simp)
  have hpublish := @dependsOn _ _ "publish" "package" hregistered (by decide) (by decide)
  have hpackage := @dependsOn _ _ "package" "publish" hpublish (by decide) (by decide)
  have hp : Scheduled p [("package", "publish"), ("publish", "package")] := (hpackage.evaluate 0).elsewhere rfl
  obtain ⟨q, r, hq, hr, hgraph, hinputs⟩ : ∃ q r,
      ConfigM.finalize p = .error (.missingTaskInput "package" "input") q ∧
      ConfigM.configure "package" [.change (.custom type fun t => { t with needs := none })] q = .ok ⟨⟩ r ∧
      r.tasks.graph = p.tasks.graph ∧ r.HaveInputs r.tasks.names :=
    ⟨_, _, rfl, rfl, rfl, .cons rfl rfl (.cons rfl rfl (.cons rfl rfl (.nil _)))⟩
  obtain ⟨-, hagain, hmissing⟩ := Scheduled.finalize_first_missing hp
  obtain ⟨hfront, hlater, -⟩ := hmissing "package" "input" q ["compile"] ["publish"] hq rfl
  rw [after_of_error hq, hq] at hagain
  have hsort : p.tasks.graph.topologicalSort = .error "publish" := by decide +kernel
  obtain ⟨s, hs⟩ := hinputs.finalize
  rw [hgraph, hsort] at hs
  exact ⟨q, r, s, hp, hq, hagain, hfront "compile" (by simp), hlater "publish" (by simp), hr, hs⟩

end Scheduled

end BuildGraph

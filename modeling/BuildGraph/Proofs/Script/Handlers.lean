/-
  BuildGraph.Proofs.Script.Handlers: when the handlers of plugins are run.

  While nothing fails, a plugin that is applied is under way until the handlers that wait for it are
  taken, all at once. Before that the handlers waiting for it are those that were queued for it, in that
  order, and none of them was started; after that none waits, and those started and those about to be
  started are in that order (`InOrder`). So when nothing is under way, no handler waits for a plugin that
  is applied.

  - `Session.inOrder_carried`: this holds at any point of a script, however plugins and handlers are nested.
  - `Session.plugins_once`: bodies and handlers run at most once in any script; if nothing failed, every
    handler of an applied plugin has run, the queued ones in order, and the others wait.
-/

import BuildGraph.Proofs.Script.History
import Mathlib.Data.List.Nodup

namespace BuildGraph

open History Machine Work

/-- While nothing fails, handlers wait until the body of their plugin has run and are then taken in order. -/
structure InOrder (log : List Happening) (ps : Plugins) (ws : List Work) : Prop where
  unique : (releases ws).Nodup
  applied : ∀ id ∈ releases ws, id ∈ ps.applied
  /-- Until they are taken, handlers wait in the order they were queued. -/
  waiting : ∀ id, (id ∈ ps.applied → id ∈ releases ws) → queued log id = ps.waitingFor id
  /-- After that none waits, and they are started in that order. -/
  taken : ∀ id ∈ ps.applied, id ∉ releases ws → ps.waitingFor id = [] ∧
    (started log ++ handlers ws).filter (fun h => h.ticket ∈ (queued log id).map (·.ticket)) = queued log id
  /-- A handler that need not wait is started or about to be. -/
  immediate : ∀ id h, .registered id h false ∈ log → id ∈ ps.applied ∧ h ∈ started log ++ handlers ws

namespace Plugins

@[simp] theorem waitingFor_markApplied (ps : Plugins) (id other : PluginId) :
    (ps.markApplied id).waitingFor other = ps.waitingFor other := rfl

@[simp] theorem waitingFor_countHandler (ps : Plugins) (id : PluginId) :
    ps.countHandler.waitingFor id = ps.waitingFor id := rfl

theorem waitingFor_enqueue (ps : Plugins) (id other : PluginId) (h : Handler) :
    (ps.enqueue id h).waitingFor other = ps.waitingFor other ++ if id = other then [h] else [] := by
  by_cases ho : id = other
  · simp [waitingFor, enqueue, ho]
  · simp [waitingFor, enqueue, ho]

theorem waitingFor_dismiss (ps : Plugins) (id other : PluginId) :
    (ps.dismiss id).waitingFor other = if id = other then [] else ps.waitingFor other := by
  by_cases ho : id = other
  · subst ho
    simp [waitingFor, dismiss, List.filter_filter]
  · have hne : ∀ a : PluginId × Handler, (a.1 == other && a.1 != id) = (a.1 == other) := by
      intro a
      by_cases ha : a.1 = other
      · simp [ha, Ne.symm ho]
      · simp [ha]
    simp [waitingFor, dismiss, List.filter_filter, hne, ho]

theorem mem_waiting_of_waitingFor {ps : Plugins} {id : PluginId} {h : Handler} (hh : h ∈ ps.waitingFor id) :
    h ∈ ps.waiting.map (·.2) := by
  obtain ⟨e, he, rfl⟩ := List.mem_map.mp hh
  exact List.mem_map.mpr ⟨e, (List.mem_filter.mp he).1, rfl⟩

end Plugins

/-! ## Handlers are told apart -/

namespace Recorded

variable {log : List Happening} {ps : Plugins} {ws : List Work} {h x : Handler} {id : PluginId}

/-- A handler that waits is none of those that were taken. -/
theorem ticket_ne (hr : Recorded log ps ws) (hh : h ∈ started log ++ handlers ws) (hx : x ∈ ps.waitingFor id) :
    h.ticket ≠ x.ticket := by
  have honce := hr.once
  rw [cameUp, List.map_append] at honce
  intro ht
  refine (List.disjoint_of_nodup_append honce) (List.mem_map_of_mem hh) ?_
  exact ht ▸ List.mem_map_of_mem (Plugins.mem_waiting_of_waitingFor hx)

/-- Of handlers that were taken, none waits. -/
theorem filter_waitingFor (hr : Recorded log ps ws) {hs : List Handler} (hhs : ∀ h ∈ hs, h ∈ started log ++ handlers ws)
    (id : PluginId) : hs.filter (fun h => h.ticket ∈ (ps.waitingFor id).map (·.ticket)) = [] := by
  refine List.filter_eq_nil_iff.mpr fun h hh hmem => ?_
  obtain ⟨x, hx, ht⟩ := List.mem_map.mp (of_decide_eq_true hmem)
  exact hr.ticket_ne (hhs h hh) hx ht.symm

/-- Of handlers that wait, none was taken. -/
theorem filter_taken (hr : Recorded log ps ws) {hs : List Handler} (hhs : ∀ h ∈ hs, h ∈ started log ++ handlers ws)
    (id : PluginId) : (ps.waitingFor id).filter (fun h => h.ticket ∈ hs.map (·.ticket)) = [] := by
  refine List.filter_eq_nil_iff.mpr fun x hx hmem => ?_
  obtain ⟨h, hh, ht⟩ := List.mem_map.mp (of_decide_eq_true hmem)
  exact hr.ticket_ne (hhs h hh) hx ht

end Recorded

/-! ## One round -/

namespace InOrder

variable {log : List Happening} {ps qs : Plugins} {ws vs : List Work} {happening : List Happening} {id : PluginId}
  {h : Handler}

/-- The handlers that were queued for a plugin whose handlers were taken were taken. -/
theorem mem_taken (ho : InOrder log ps ws) (hid : id ∈ ps.applied) (hdone : id ∉ releases ws)
    (hh : h ∈ queued log id) : h ∈ started log ++ handlers ws := by
  rw [← (ho.taken id hid hdone).2] at hh
  exact (List.mem_filter.mp hh).1

/-- A round that applies no plugin and registers no handler, and takes none that waits. -/
theorem congr (ho : InOrder log ps ws) (hqueued : ∀ id, queued happening id = [])
    (himmediate : ∀ id h, .registered id h false ∉ happening) (hreleases : releases vs = releases ws)
    (htaken : started (log ++ happening) ++ handlers vs = started log ++ handlers ws) :
    InOrder (log ++ happening) ps vs := by
  have hsame : ∀ id, queued (log ++ happening) id = queued log id := by
    intro id
    rw [queued_append, hqueued, List.append_nil]
  refine ⟨hreleases ▸ ho.unique, hreleases ▸ ho.applied, fun id hid => ?_, fun id hid hdone => ?_, fun id h hmem => ?_⟩
  · rw [hsame]
    exact ho.waiting id (hreleases ▸ hid)
  · rw [hsame, htaken]
    exact ho.taken id hid (hreleases ▸ hdone)
  · rw [htaken]
    rcases List.mem_append.mp hmem with hmem | hmem
    · exact ho.immediate id h hmem
    · exact absurd hmem (himmediate id h)

/-- The body of a plugin is started: its handlers still wait. -/
theorem markApplied (ho : InOrder log ps ws) (hid : id ∉ ps.applied) (hreleases : releases vs = id :: releases ws)
    (hhandlers : handlers vs = handlers ws) : InOrder (log ++ [.applied id]) (ps.markApplied id) vs := by
  have hqueued : ∀ other, queued (log ++ [.applied id]) other = queued log other := fun other => by
    simp [queued]
  have hstarted : started (log ++ [.applied id]) = started log := by simp [started]
  have hmem : ∀ other, other ∈ (ps.markApplied id).applied ↔ other ∈ ps.applied ∨ other = id := fun other => by
    simp [Plugins.markApplied]
  refine ⟨?_, fun other hother => ?_, fun other hother => ?_, fun other hother hdone => ?_, fun other h hh => ?_⟩
  · rw [hreleases]
    exact List.nodup_cons.mpr ⟨fun hmem => hid (ho.applied id hmem), ho.unique⟩
  · rw [hreleases] at hother
    rcases List.mem_cons.mp hother with rfl | hother
    · exact (hmem other).mpr (.inr rfl)
    · exact (hmem other).mpr (.inl (ho.applied other hother))
  · rw [hqueued]
    refine ho.waiting other fun happlied => ?_
    have hmember := hother ((hmem other).mpr (.inl happlied))
    rw [hreleases] at hmember
    rcases List.mem_cons.mp hmember with rfl | hmember
    · exact absurd happlied hid
    · exact hmember
  · rw [hreleases] at hdone
    have hne : other ≠ id := fun he => hdone (he ▸ List.mem_cons_self ..)
    rw [hqueued, hstarted, hhandlers]
    refine ho.taken other ?_ fun hmem => hdone (List.mem_cons_of_mem _ hmem)
    exact ((hmem other).mp hother).resolve_right hne
  · rw [hstarted, hhandlers]
    obtain ⟨happlied, htaken⟩ := ho.immediate other h (by simpa using hh)
    exact ⟨(hmem other).mpr (.inl happlied), htaken⟩

/-- A handler is queued for a plugin that is not applied: it waits behind the others. -/
theorem enqueue (ho : InOrder log ps ws) (hid : id ∉ ps.applied) (hreleases : releases vs = releases ws)
    (hhandlers : handlers vs = handlers ws) :
    InOrder (log ++ [.registered id h true]) (ps.enqueue id h).countHandler vs := by
  have hstarted : started (log ++ [.registered id h true]) = started log := by simp [started]
  have hqueued : ∀ other, queued (log ++ [.registered id h true]) other =
      queued log other ++ if id = other then [h] else [] := fun other => by
    by_cases ho : id = other
    · simp [queued, ho]
    · simp [queued, ho]
  have hwaiting : ∀ other, (ps.enqueue id h).countHandler.waitingFor other =
      ps.waitingFor other ++ if id = other then [h] else [] := fun other => by
    rw [Plugins.waitingFor_countHandler, Plugins.waitingFor_enqueue]
  have hother : ∀ other ∈ ps.applied, id ≠ other := by
    rintro other hother rfl
    exact hid hother
  refine ⟨hreleases ▸ ho.unique, hreleases ▸ ho.applied, fun other hmem => ?_, fun other hmem hdone => ?_,
    fun other x hx => ?_⟩
  · rw [hqueued, hwaiting, ho.waiting other (hreleases ▸ hmem)]
  · obtain ⟨hnone, htaken⟩ := ho.taken other hmem (hreleases ▸ hdone)
    rw [hqueued, hwaiting, hstarted, hhandlers, if_neg (hother other hmem), List.append_nil, List.append_nil]
    exact ⟨hnone, htaken⟩
  · rw [hstarted, hhandlers]
    exact ho.immediate other x (by simpa using hx)

/-- A handler of an applied plugin need not wait. -/
theorem startAtOnce (ho : InOrder log ps ws) (hr : Recorded log ps ws) (hid : id ∈ ps.applied)
    (hticket : h.ticket = ps.registered) (hreleases : releases vs = releases ws)
    (hhandlers : handlers vs = h :: handlers ws) :
    InOrder (log ++ [.registered id h false]) ps.countHandler vs := by
  have hstarted : started (log ++ [.registered id h false]) = started log := by simp [started]
  have hqueued : ∀ other, queued (log ++ [.registered id h false]) other = queued log other := fun other => by
    simp [queued]
  refine ⟨hreleases ▸ ho.unique, hreleases ▸ ho.applied, fun other hmem => ?_, fun other hmem hdone => ?_,
    fun other x hx => ?_⟩
  · rw [hqueued]
    exact ho.waiting other (hreleases ▸ hmem)
  · rw [hreleases] at hdone
    obtain ⟨hnone, htaken⟩ := ho.taken other hmem hdone
    have hnew : ¬ h.ticket ∈ (queued log other).map (·.ticket) := by
      intro hin
      obtain ⟨x, hx, ht⟩ := List.mem_map.mp hin
      refine hr.fresh (List.mem_map.mpr ⟨x, ?_, ht.trans hticket⟩)
      exact List.mem_append_left _ (ho.mem_taken hmem hdone hx)
    rw [hqueued, hstarted, hhandlers]
    refine ⟨hnone, ?_⟩
    rw [List.filter_append, List.filter_cons, if_neg (by simpa using hnew), ← List.filter_append]
    exact htaken
  · rw [hstarted, hhandlers]
    rcases List.mem_append.mp hx with hx | hx
    · obtain ⟨happlied, htaken⟩ := ho.immediate other x hx
      refine ⟨happlied, ?_⟩
      rcases List.mem_append.mp htaken with htaken | htaken
      · exact List.mem_append_left _ htaken
      · exact List.mem_append_right _ (List.mem_cons_of_mem _ htaken)
    · cases List.mem_singleton.mp hx
      exact ⟨hid, List.mem_append_right _ (List.mem_cons_self ..)⟩

/-- The handlers waiting for a plugin are taken, all of them and in order. -/
theorem release (ho : InOrder log ps ws) (hr : Recorded log ps ws) (hreleases : releases ws = id :: releases vs)
    (hhandlers : handlers vs = ps.waitingFor id ++ handlers ws) : InOrder log (ps.dismiss id) vs := by
  have hunder : id ∈ releases ws := hreleases ▸ List.mem_cons_self ..
  have hunique : id ∉ releases vs ∧ (releases vs).Nodup := List.nodup_cons.mp (hreleases ▸ ho.unique)
  have hwaited : queued log id = ps.waitingFor id := ho.waiting id fun _ => hunder
  have hrest : ∀ other, other ≠ id → (other ∈ releases ws ↔ other ∈ releases vs) := by
    intro other hne
    rw [hreleases]
    exact ⟨fun h => (List.mem_cons.mp h).resolve_left hne, List.mem_cons_of_mem _⟩
  refine ⟨hunique.2, fun other hother => ?_, fun other hother => ?_, fun other hother hdone => ?_, fun other h hh => ?_⟩
  · exact ho.applied other (hreleases ▸ List.mem_cons_of_mem _ hother)
  · have hne : id ≠ other := by
      rintro rfl
      exact hunique.1 (hother (ho.applied id hunder))
    rw [Plugins.waitingFor_dismiss, if_neg hne]
    exact ho.waiting other fun happlied => (hrest other hne.symm).mpr (hother happlied)
  · rw [Plugins.waitingFor_dismiss, hhandlers]
    by_cases he : id = other
    · subst he
      rw [if_pos rfl, hwaited, List.filter_append, List.filter_append,
        hr.filter_waitingFor (fun h => List.mem_append_left _), hr.filter_waitingFor (fun h => List.mem_append_right _)]
      refine ⟨rfl, ?_⟩
      rw [List.nil_append, List.append_nil]
      exact List.filter_eq_self.mpr fun h hh => decide_eq_true (List.mem_map_of_mem hh)
    · have hdone : other ∉ releases ws := fun h => hdone ((hrest other (Ne.symm he)).mp h)
      obtain ⟨hnone, htaken⟩ := ho.taken other hother hdone
      rw [if_neg he, List.filter_append, List.filter_append,
        hr.filter_taken (fun h => ho.mem_taken hother hdone), List.nil_append, ← List.filter_append]
      exact ⟨hnone, htaken⟩
  · obtain ⟨happlied, htaken⟩ := ho.immediate other h hh
    refine ⟨happlied, ?_⟩
    rw [hhandlers]
    rcases List.mem_append.mp htaken with htaken | htaken
    · exact List.mem_append_left _ htaken
    · exact List.mem_append_right _ (List.mem_append_right _ htaken)

theorem turn (ho : InOrder log ps ws) (hr : Recorded log ps ws) (ht : Turn ps ws happening qs vs)
    (hok : failures happening = []) : InOrder (log ++ happening) qs vs := by
  cases ht with
  | idle => exact ho.congr (fun _ => rfl) (by simp) rfl (by simp)
  | acted => exact ho.congr (fun _ => rfl) (by simp) rfl (by simp [handlers])
  | failed hleft => cases hok
  | appliedAgain => exact ho.congr (fun _ => rfl) (by simp) rfl (by simp [handlers])
  | applied hid => exact ho.markApplied hid (by simp [releases, workOf]) (by simp [handlers, workOf])
  | queued hid => exact ho.enqueue hid rfl rfl
  | immediate hid => exact ho.startAtOnce hr hid rfl rfl rfl
  | attempt => exact ho.congr (fun _ => rfl) (by simp) (by simp [releases, workOf]) (by simp [handlers, workOf])
  | started => exact ho.congr (fun _ => rfl) (by simp) (by simp [releases, workOf]) (by simp [handlers, workOf, History.started])
  | released =>
    rw [List.append_nil]
    exact ho.release hr (by simp [releases]) (by simp [handlers])
  | answered => exact ho.congr (fun _ => rfl) (by simp) rfl (by simp [handlers])
  | attempted => exact ho.congr (fun _ => rfl) (by simp) rfl (by simp [handlers])

end InOrder

/-! ## When nothing is under way -/

/-- What has become of the handlers for `id` when nothing is under way. -/
structure Settled (log : List Happening) (ps : Plugins) (id : PluginId) : Prop where
  pending : id ∈ ps.applied → ps.pending id = 0
  /-- Once the plugin is applied, its handlers have run, each once. -/
  ran : id ∈ ps.applied → ∀ h, (id, h) ∈ registered log →
    h ∈ started log ∧ ((started log).map (·.ticket)).count h.ticket = 1
  /-- Those that were queued have run in the order they were registered. -/
  inOrder : id ∈ ps.applied →
    (started log).filter (fun h => h.ticket ∈ (queued log id).map (·.ticket)) = queued log id
  /-- Until the plugin is applied, its handlers wait, each once. -/
  waits : id ∉ ps.applied → ∀ h, (id, h) ∈ registered log → h.ticket ∉ (started log).map (·.ticket) ∧
    h ∈ ps.waitingFor id ∧ (ps.waiting.map (·.2.ticket)).count h.ticket = 1

namespace Machine.AtRest

variable {m : Machine}

theorem handlers (h : m.AtRest) : handlers m.work = [] := by
  refine List.eq_nil_iff_forall_not_mem.mpr fun x hx => ?_
  cases h _ (mem_handlers.mp hx)

theorem releases (h : m.AtRest) : releases m.work = [] := by
  refine List.eq_nil_iff_forall_not_mem.mpr fun id hid => ?_
  cases h _ (mem_releases.mp hid)

end Machine.AtRest

namespace History

/-- A handler that is registered has to wait, or it need not. -/
theorem mem_registered {log : List Happening} {id : PluginId} {h : Handler} (hh : (id, h) ∈ registered log) :
    h ∈ queued log id ∨ .registered id h false ∈ log := by
  obtain ⟨happening, hmem, hsome⟩ := List.mem_filterMap.mp hh
  cases happening with
  | registered other x waits =>
    cases hsome
    cases waits with
    | true => exact .inl (List.mem_filterMap.mpr ⟨_, hmem, if_pos rfl⟩)
    | false => exact .inr hmem
  | _ => cases hsome

end History

/-- When nothing is under way, no handler waits for a plugin that is applied. -/
theorem InOrder.settled {log : List Happening} {m : Machine} (ho : InOrder log m.plugins m.work)
    (hr : Recorded log m.plugins m.work) (hrest : m.AtRest) (id : PluginId) : Settled log m.plugins id := by
  have hreleases : id ∉ releases m.work := by simp [hrest.releases]
  have honce : (((started log).map (·.ticket)) ++ m.plugins.waiting.map (·.2.ticket)).Nodup := by
    have hall := hr.once
    rw [cameUp, hrest.handlers] at hall
    simpa [Function.comp_def] using hall
  have hstarted : ∀ h ∈ started log ++ handlers m.work, h ∈ started log := by simp [hrest.handlers]
  refine ⟨fun hid => ?_, fun hid h hh => ?_, fun hid => ?_, fun hid h hh => ?_⟩
  · rw [Plugins.pending, (ho.taken id hid hreleases).1]
    rfl
  · have hran : h ∈ started log := by
      rcases mem_registered hh with hh | hh
      · exact hstarted h (ho.mem_taken hid hreleases hh)
      · exact hstarted h (ho.immediate id h hh).2
    exact ⟨hran, List.count_eq_one_of_mem hr.started_nodup (List.mem_map_of_mem hran)⟩
  · have htaken := (ho.taken id hid hreleases).2
    rw [hrest.handlers, List.append_nil] at htaken
    exact htaken
  · have hwaits : h ∈ m.plugins.waitingFor id := by
      rcases mem_registered hh with hh | hh
      · rw [← ho.waiting id fun happlied => absurd happlied hid]
        exact hh
      · exact absurd (ho.immediate id h hh).1 hid
    have hticket : h.ticket ∈ m.plugins.waiting.map (·.2.ticket) := by
      obtain ⟨e, he, rfl⟩ := List.mem_map.mp hwaits
      exact List.mem_map.mpr ⟨e, (List.mem_filter.mp he).1, rfl⟩
    refine ⟨fun hran => ?_, hwaits, ?_⟩
    · exact List.disjoint_of_nodup_append honce hran hticket
    · exact List.count_eq_one_of_mem (List.nodup_append.mp honce).2.1 hticket

/-! ## Whole scripts -/

namespace Session

theorem start_recorded (p : Project) : Recorded [] (start p).plugins [] :=
  ⟨rfl, .nil, rfl, .nil, by simp [cameUp, start, started, handlers]⟩

theorem start_inOrder (p : Project) : InOrder [] (start p).plugins [] :=
  ⟨.nil, by simp [releases], fun _ _ => rfl, by simp [start], by simp⟩

theorem machine_recorded {s : Session} {log : List Happening} (h : Recorded log s.plugins []) (step : Step) :
    Recorded log (s.machine step).plugins (s.machine step).work :=
  ⟨h.applied, h.nodup, h.tickets, h.once, h.known⟩

theorem machine_inOrder {s : Session} {log : List Happening} (h : InOrder log s.plugins []) (step : Step) :
    InOrder log (s.machine step).plugins (s.machine step).work :=
  ⟨h.unique, h.applied, h.waiting, h.taken, h.immediate⟩

theorem performAll_recorded (steps : List Step) {s : Session} {log : List Happening} (h : Recorded log s.plugins []) :
    Recorded (log ++ history steps s) (performAll steps s).2.plugins [] := by
  induction steps generalizing s log with
  | nil => simpa [history, performAll] using h
  | cons step steps ih =>
    have hstep := (machine_recorded h step).run (s.machine step).weight
    rw [history, ← List.append_assoc]
    exact ih (s := (s.perform step).2) (perform_of_finish (P := fun ps ws _ => Recorded _ ps ws) hstep)

/-- As long as nothing fails, handlers wait and are taken in order, whatever the steps are. -/
theorem inOrder_carried : Carried (fun _ => True) fun log ps ws _ => Recorded log ps ws ∧ InOrder log ps ws where
  next h hok := ⟨h.1.turn (next_turn _), h.2.turn h.1 (next_turn _) hok⟩
  begin h step _ := ⟨machine_recorded h.1 step, machine_inOrder h.2 step⟩

/-- At any point of a script, whatever failed, the bodies that were started are those of the plugins that are applied,
    no plugin is applied twice, and no handler was started twice. If nothing failed and nothing is under way, no
    handler waits for a plugin that is applied: each of its handlers has run once, and the queued ones in the order
    they were registered. The handlers of the other plugins wait, each once. -/
theorem plugins_once (settings : Settings) (before : List Step) (step : Step) (n : Nat) :
    let s := (performAll before (start (.ofSettings settings))).2
    let m := (s.machine step).run n
    let log := history before (start (.ofSettings settings)) ++ (s.machine step).history n
    (applied log = m.plugins.applied ∧ m.plugins.applied.Nodup ∧
      (registered log).map (·.2.ticket) = List.range m.plugins.registered ∧
      (∀ h ∈ started log, ∃ id, (id, h) ∈ registered log) ∧ ((started log).map (·.ticket)).Nodup) ∧
    (failures log = [] → m.AtRest → ∀ id, Settled log m.plugins id) := by
  intro s m log
  have hbefore := performAll_recorded before (start_recorded (.ofSettings settings))
  have hr : Recorded log m.plugins m.work := (machine_recorded hbefore step).run n
  refine ⟨⟨hr.applied, hr.nodup, hr.tickets, fun h hh => ?_, ?_⟩, fun hok hrest id => ?_⟩
  · exact hr.known h (List.mem_append_left _ (List.mem_append_left _ hh))
  · have honce := hr.once
    rw [cameUp, List.append_assoc, List.map_append] at honce
    exact (List.nodup_append.mp honce).1
  · have hlog : log = Session.told happening before (start (.ofSettings settings)) ++ (s.machine step).told happening n := by
      rw [← Session.history_eq_told, ← Machine.history_eq_told]
    have ho : InOrder log m.plugins m.work := hlog ▸
      (inOrder_carried.during n ⟨start_recorded _, start_inOrder _⟩ (fun _ _ => trivial) trivial hok).2
    exact ho.settled hr hrest id

/-- A handler that waits for `base` registers another one while `base` is under way, and that one need not wait. -/
theorem plugins_once_of_nested :
    let steps : List Step := [.withPlugin "base" false [.withPlugin "base" false []], .apply "base" false [], .apply "base" false []]
    let s := (performAll steps (start (.ofSettings {}))).2
    let log := history steps (start (.ofSettings {})) ++ (s.machine (.act (.plugin "base"))).history 1
    failures log = [] ∧ ((s.machine (.act (.plugin "base"))).run 1).AtRest ∧ (started log).map (·.ticket) = [0, 1] ∧
      Settled log s.plugins "base" := by
  intro steps s log
  have hfailures : failures log = [] := rfl
  have hrest : ((s.machine (.act (.plugin "base"))).run 1).AtRest := fun w hw => absurd hw List.not_mem_nil
  exact ⟨hfailures, hrest, rfl, (plugins_once {} steps (.act (.plugin "base")) 1).2 hfailures hrest "base"⟩

end Session

end BuildGraph

/-
  BuildGraph.Proofs.Script.History: what becomes of plugins and handlers while a script is run.

  The rounds of a script leave a history: which bodies of plugins were started, which handlers were
  registered and started, and what failed. A plugin counts as applied from the round that starts its
  body, and a handler has come up from the round that registers it: it waits for a plugin, then stands
  among the work to be done, then is started.

  `Turn` says what a round can do to the plugins, the work and the history; what all rounds keep is
  shown from it case by case.

  - `Machine.next_turn`: every round is a turn.
  - `Throughout.turn`: what is so of every step of a script, whatever it is inside of, stays so.
  - `Recorded.run`: whatever fails, the bodies started are those of the plugins that are applied, each
    once, and a handler that has come up waits, stands in the work or was started, and that once.
  - `Accounted.performAll`: what the rounds of a script keep as long as nothing fails, whole scripts keep.
-/

import BuildGraph.Proofs.Script.Reachable

namespace BuildGraph

open Machine

/-! ## Histories -/

/-- What a round does with plugins and handlers. -/
inductive Happening where
  /-- The body of the plugin `id` is started. -/
  | applied (id : PluginId)
  /-- `h` is registered for `id`, to wait for it or to be run right away. -/
  | registered (id : PluginId) (h : Handler) (waits : Bool)
  | started (h : Handler)
  /-- An action fails. -/
  | failed (e : ConfigError)

/-- What happens in the next round. -/
def Machine.happening (m : Machine) : List Happening :=
  match m.work with
  | .step _ (.act a) :: _ =>
    match a.run m.plugins m.workspace with
    | .ok _ _ => []
    | .error e _ => [.failed e]
  | .step _ (.apply id _ _) :: _ => if m.plugins.isApplied id then [] else [.applied id]
  | .step _ (.withPlugin id inner body) :: _ =>
    [.registered id (m.plugins.handler inner body) (!m.plugins.isApplied id)]
  | .handler h :: _ => [.started h]
  | _ => []

/-- What happens in `n` rounds. -/
def Machine.history : Nat → Machine → List Happening
  | 0, _ => []
  | n + 1, m => m.happening ++ history n m.next

/-- What happens while steps are performed one after another. -/
def Session.history : List Step → Session → List Happening
  | [], _ => []
  | step :: steps, s => (s.machine step).history (s.machine step).weight ++ history steps (s.perform step).2

namespace History

/-- The plugins whose bodies were started. -/
def applied (log : List Happening) : List PluginId :=
  log.filterMap fun
    | .applied id => some id
    | _ => none

/-- The handlers that were started. -/
def started (log : List Happening) : List Handler :=
  log.filterMap fun
    | .started h => some h
    | _ => none

/-- The handlers that were registered, with the plugins they were registered for. -/
def registered (log : List Happening) : List (PluginId × Handler) :=
  log.filterMap fun
    | .registered id h _ => some (id, h)
    | _ => none

/-- The handlers that were to wait for `id`, in the order they were registered. -/
def queued (log : List Happening) (id : PluginId) : List Handler :=
  log.filterMap fun
    | .registered other h true => if other = id then some h else none
    | _ => none

def failures (log : List Happening) : List ConfigError :=
  log.filterMap fun
    | .failed e => some e
    | _ => none

variable (log more : List Happening) (id : PluginId)

@[simp] theorem applied_append : applied (log ++ more) = applied log ++ applied more := List.filterMap_append ..

@[simp] theorem started_append : started (log ++ more) = started log ++ started more := List.filterMap_append ..

@[simp] theorem registered_append : registered (log ++ more) = registered log ++ registered more := List.filterMap_append ..

@[simp] theorem queued_append : queued (log ++ more) id = queued log id ++ queued more id := List.filterMap_append ..

@[simp] theorem failures_append : failures (log ++ more) = failures log ++ failures more := List.filterMap_append ..

end History

/-! ## Work that has to do with plugins -/

/-- The handlers about to be started. -/
def Work.handlers (ws : List Work) : List Handler :=
  ws.filterMap fun
    | .handler h => some h
    | _ => none

/-- The plugins whose bodies are under way. -/
def Work.releases (ws : List Work) : List PluginId :=
  ws.filterMap fun
    | .release id => some id
    | _ => none

/-- The plugin or handler that the work belongs to has been started and is not done. -/
def Work.isUnderway : Work → Bool
  | .handler _ => true
  | .release _ => true
  | .answer _ => true
  | _ => false

/-- No plugin and no handler is under way. -/
def Machine.AtRest (m : Machine) : Prop := ∀ w ∈ m.work, w.isUnderway = false

namespace Work

@[simp] theorem handlers_append (ws vs : List Work) : handlers (ws ++ vs) = handlers ws ++ handlers vs :=
  List.filterMap_append ..

@[simp] theorem handlers_workOf (reported : Bool) (body : List Step) : handlers (workOf reported body) = [] := by
  simp [handlers, workOf]

@[simp] theorem handlers_map (hs : List Handler) : handlers (hs.map .handler) = hs := by
  induction hs with
  | nil => rfl
  | cons h hs ih => exact congrArg (h :: ·) ih

theorem mem_handlers {ws : List Work} {h : Handler} : h ∈ handlers ws ↔ .handler h ∈ ws := by
  unfold handlers
  rw [List.mem_filterMap]
  constructor
  · rintro ⟨w, hw, hh⟩
    cases w <;> cases hh
    exact hw
  · intro hw
    exact ⟨_, hw, rfl⟩

theorem mem_releases {ws : List Work} {id : PluginId} : id ∈ releases ws ↔ .release id ∈ ws := by
  unfold releases
  rw [List.mem_filterMap]
  constructor
  · rintro ⟨w, hw, hh⟩
    cases w <;> cases hh
    exact hw
  · intro hw
    exact ⟨_, hw, rfl⟩

end Work

theorem Plugins.isApplied_iff {ps : Plugins} {id : PluginId} : ps.isApplied id = true ↔ id ∈ ps.applied :=
  List.contains_iff_mem

/-! ## Calls that depend on what is applied -/

namespace Machine

variable {m : Machine} {id : PluginId} {reported inner : Bool} {body : List Step} {rest : List Work}

theorem perform_apply_of_mem (hid : id ∈ m.plugins.applied) :
    m.perform (.step reported (.apply id inner body)) rest = { m with work := .answer reported :: rest } := by
  rw [perform, if_pos (Plugins.isApplied_iff.mpr hid)]

theorem perform_apply_of_not_mem (hid : id ∉ m.plugins.applied) :
    m.perform (.step reported (.apply id inner body)) rest =
      { m with
        work := workOf inner body ++ .release id :: .answer reported :: rest
        plugins := m.plugins.markApplied id } := by
  rw [perform, if_neg (mt Plugins.isApplied_iff.mp hid)]

theorem perform_withPlugin_of_mem (hid : id ∈ m.plugins.applied) :
    m.perform (.step reported (.withPlugin id inner body)) rest =
      { m with
        work := .handler (m.plugins.handler inner body) :: .answer reported :: rest
        plugins := m.plugins.countHandler } := by
  rw [perform, if_pos (Plugins.isApplied_iff.mpr hid)]

theorem perform_withPlugin_of_not_mem (hid : id ∉ m.plugins.applied) :
    m.perform (.step reported (.withPlugin id inner body)) rest =
      { m with
        work := .answer reported :: rest
        plugins := (m.plugins.enqueue id (m.plugins.handler inner body)).countHandler } := by
  rw [perform, if_neg (mt Plugins.isApplied_iff.mp hid)]

end Machine

/-! ## Turns -/

/-- What a round does to the plugins and the work, and what happens in it. -/
inductive Turn : Plugins → List Work → List Happening → Plugins → List Work → Prop
  | idle {ps : Plugins} : Turn ps [] [] ps []
  | acted {ps : Plugins} {reported : Bool} {a : Action} {rest : List Work} :
    Turn ps (.step reported (.act a) :: rest) [] ps rest
  /-- What follows the innermost attempt under way is what remains. -/
  | failed {ps : Plugins} {reported : Bool} {a : Action} {rest left : List Work} {e : ConfigError} :
    left <:+ rest → Turn ps (.step reported (.act a) :: rest) [.failed e] ps left
  | appliedAgain {ps : Plugins} {reported inner : Bool} {id : PluginId} {body : List Step} {rest : List Work} :
    id ∈ ps.applied → Turn ps (.step reported (.apply id inner body) :: rest) [] ps (.answer reported :: rest)
  | applied {ps : Plugins} {reported inner : Bool} {id : PluginId} {body : List Step} {rest : List Work} :
    id ∉ ps.applied → Turn ps (.step reported (.apply id inner body) :: rest) [.applied id] (ps.markApplied id)
      (workOf inner body ++ .release id :: .answer reported :: rest)
  | queued {ps : Plugins} {reported inner : Bool} {id : PluginId} {body : List Step} {rest : List Work} :
    id ∉ ps.applied → Turn ps (.step reported (.withPlugin id inner body) :: rest)
      [.registered id (ps.handler inner body) true] (ps.enqueue id (ps.handler inner body)).countHandler
      (.answer reported :: rest)
  | immediate {ps : Plugins} {reported inner : Bool} {id : PluginId} {body : List Step} {rest : List Work} :
    id ∈ ps.applied → Turn ps (.step reported (.withPlugin id inner body) :: rest)
      [.registered id (ps.handler inner body) false] ps.countHandler
      (.handler (ps.handler inner body) :: .answer reported :: rest)
  | attempt {ps : Plugins} {reported inner : Bool} {body : List Step} {rest : List Work} :
    Turn ps (.step reported (.attempt inner body) :: rest) [] ps (workOf inner body ++ .attempted reported :: rest)
  | started {ps : Plugins} {h : Handler} {rest : List Work} :
    Turn ps (.handler h :: rest) [.started h] ps (workOf h.reported h.body ++ rest)
  | released {ps : Plugins} {id : PluginId} {rest : List Work} :
    Turn ps (.release id :: rest) [] (ps.dismiss id) ((ps.waitingFor id).map .handler ++ rest)
  | answered {ps : Plugins} {reported : Bool} {rest : List Work} : Turn ps (.answer reported :: rest) [] ps rest
  | attempted {ps : Plugins} {reported : Bool} {rest : List Work} : Turn ps (.attempted reported :: rest) [] ps rest

/-- A plugin that comes to be applied is applied after those that are. -/
theorem Turn.prefix_applied {ps qs : Plugins} {ws vs : List Work} {happening : List Happening}
    (ht : Turn ps ws happening qs vs) : ps.applied <+: qs.applied := by
  cases ht with
  | applied => exact List.prefix_append ..
  | _ => exact List.prefix_rfl

/-- What is applied stays applied. -/
theorem Turn.mem_applied {ps qs : Plugins} {ws vs : List Work} {happening : List Happening} {id : PluginId}
    (ht : Turn ps ws happening qs vs) (hid : id ∈ ps.applied) : id ∈ qs.applied := ht.prefix_applied.subset hid

/-- A plugin is applied once a call to apply it was begun. -/
theorem Turn.applies {ps qs : Plugins} {reported inner : Bool} {id : PluginId} {body : List Step} {rest vs : List Work}
    {happening : List Happening} (ht : Turn ps (.step reported (.apply id inner body) :: rest) happening qs vs) :
    id ∈ qs.applied := by
  cases ht with
  | appliedAgain hid => exact hid
  | applied => exact List.mem_append_right _ (List.mem_singleton_self id)

/-! ## What is so of every step -/

/-- A property of steps, given the plugins that are applied by then, which passes on to the steps inside a step. -/
structure Step.Hereditary (P : List PluginId → Step → Prop) : Prop where
  mono : ∀ {known more : List PluginId} {s : Step}, known ⊆ more → P known s → P more s
  apply : ∀ {known : List PluginId} {id : PluginId} {reported : Bool} {body : List Step},
    P known (.apply id reported body) → ∀ s ∈ body, P (id :: known) s
  withPlugin : ∀ {known : List PluginId} {id : PluginId} {reported : Bool} {body : List Step},
    P known (.withPlugin id reported body) → ∀ s ∈ body, P (id :: known) s
  attempt : ∀ {known : List PluginId} {reported : Bool} {body : List Step},
    P known (.attempt reported body) → ∀ s ∈ body, P known s

/-- `P` holds of the steps that a piece of work consists of. -/
def Work.All (P : Step → Prop) : Work → Prop
  | .step _ s => P s
  | .handler h => ∀ s ∈ h.body, P s
  | _ => True

/-- `P` holds of all that is to be done, and of all that waits for a plugin once this is applied. -/
structure Throughout (P : List PluginId → Step → Prop) (ps : Plugins) (ws : List Work) : Prop where
  work : ∀ w ∈ ws, w.All (P ps.applied)
  waiting : ∀ e ∈ ps.waiting, ∀ s ∈ e.2.body, P (e.1 :: ps.applied) s

namespace Throughout

variable {P : List PluginId → Step → Prop} {Q : Step → Prop} {ps qs : Plugins} {ws vs rest : List Work}
  {happening : List Happening} {w : Work}

theorem tail (h : Throughout P ps (w :: rest)) : ∀ w ∈ rest, w.All (P ps.applied) :=
  fun w hw => h.work w (List.mem_cons_of_mem _ hw)

/-- The step that is to be done first has the property. -/
theorem first (h : Throughout P ps ws) {reported : Bool} {s : Step} (hws : ws = .step reported s :: rest) :
    P ps.applied s := by
  subst hws
  exact h.work _ (List.mem_cons_self ..)

theorem append_workOf {inner : Bool} {body : List Step} (hbody : ∀ s ∈ body, Q s) (hrest : ∀ w ∈ rest, w.All Q) :
    ∀ w ∈ workOf inner body ++ rest, w.All Q := by
  intro w hw
  rcases List.mem_append.mp hw with hw | hw
  · obtain ⟨s, hs, rfl⟩ := List.mem_map.mp hw
    exact hbody s hs
  · exact hrest w hw

theorem cons_answer {reported : Bool} (hrest : ∀ w ∈ rest, w.All Q) : ∀ w ∈ .answer reported :: rest, w.All Q :=
  List.forall_mem_cons.mpr ⟨trivial, hrest⟩

theorem mono_work (hP : Step.Hereditary P) {known more : List PluginId} (hsub : known ⊆ more)
    (h : ∀ w ∈ rest, w.All (P known)) : ∀ w ∈ rest, w.All (P more) := by
  intro w hw
  cases w with
  | step reported s => exact hP.mono hsub (h _ hw)
  | handler x => exact fun s hs => hP.mono hsub (h _ hw s hs)
  | _ => trivial

/-- All that a turn brings up was there before it, inside a step or a handler. -/
theorem turn (hP : Step.Hereditary P) (h : Throughout P ps ws) (ht : Turn ps ws happening qs vs)
    (hreleases : ∀ id ∈ Work.releases ws, id ∈ ps.applied) : Throughout P qs vs := by
  have hps := h.waiting
  cases ht with
  | idle => exact h
  | acted => exact ⟨h.tail, hps⟩
  | failed hleft => exact ⟨fun w hw => h.tail w (hleft.subset hw), hps⟩
  | appliedAgain => exact ⟨cons_answer h.tail, hps⟩
  | @applied reported inner id body rest hid =>
    have hstep := h.first rfl
    have hsub : ps.applied ⊆ (ps.markApplied id).applied := List.subset_append_left ..
    have hmem : id ∈ (ps.markApplied id).applied := List.mem_append_right _ (List.mem_singleton_self id)
    refine ⟨append_workOf (fun s hs => ?_) (List.forall_mem_cons.mpr ⟨trivial, cons_answer (mono_work hP hsub h.tail)⟩),
      fun e he s hs => ?_⟩
    · exact hP.mono (List.cons_subset.mpr ⟨hmem, hsub⟩) (hP.apply hstep s hs)
    · exact hP.mono (List.cons_subset_cons _ hsub) (hps e he s hs)
  | @queued reported inner id body rest hid =>
    have hstep := h.first rfl
    refine ⟨cons_answer h.tail, fun e he => ?_⟩
    rcases List.mem_append.mp he with he | he
    · exact hps e he
    · cases List.mem_singleton.mp he
      exact hP.withPlugin hstep
  | @immediate reported inner id body rest hid =>
    have hstep := h.first rfl
    refine ⟨List.forall_mem_cons.mpr ⟨fun s hs => ?_, cons_answer h.tail⟩, hps⟩
    exact hP.mono (List.cons_subset.mpr ⟨hid, List.Subset.refl _⟩) (hP.withPlugin hstep s hs)
  | @attempt reported inner body rest =>
    exact ⟨append_workOf (hP.attempt (h.first rfl)) (List.forall_mem_cons.mpr ⟨trivial, h.tail⟩), hps⟩
  | started => exact ⟨append_workOf (h.work _ (List.mem_cons_self ..)) h.tail, hps⟩
  | @released id =>
    have hid : id ∈ ps.applied := hreleases id (List.mem_cons_self ..)
    refine ⟨fun w hw => ?_, fun e he => hps e (List.mem_filter.mp he).1⟩
    rcases List.mem_append.mp hw with hw | hw
    · obtain ⟨x, hx, rfl⟩ := List.mem_map.mp hw
      obtain ⟨e, he, rfl⟩ := List.mem_map.mp hx
      obtain ⟨hwaits, hfor⟩ := List.mem_filter.mp he
      obtain rfl : e.1 = id := by simpa using hfor
      exact fun s hs => hP.mono (List.cons_subset.mpr ⟨hid, List.Subset.refl _⟩) (hps e hwaits s hs)
    · exact h.tail w hw
  | answered => exact ⟨h.tail, hps⟩
  | attempted => exact ⟨h.tail, hps⟩

end Throughout

namespace Machine

@[simp] theorem report_work (m : Machine) (reported : Bool) (a : Answer) : (m.report reported a).work = m.work := by
  cases reported <;> rfl

@[simp] theorem report_plugins (m : Machine) (reported : Bool) (a : Answer) :
    (m.report reported a).plugins = m.plugins := by
  cases reported <;> rfl

theorem recover_suffix {ws left : List Work} {reported : Bool} (h : recover ws = some (reported, left)) : left <:+ ws := by
  induction ws with
  | nil => cases h
  | cons w rest ih =>
    cases w with
    | attempted r =>
      cases h
      exact List.suffix_cons ..
    | _ => exact (ih h).trans (List.suffix_cons ..)

theorem fail_turn (m : Machine) (e : ConfigError) (rest : List Work) :
    (m.fail e rest).plugins = m.plugins ∧ (m.fail e rest).work <:+ rest := by
  unfold fail
  split
  · rename_i reported left hr
    exact ⟨report_plugins .., by simpa using recover_suffix hr⟩
  · exact ⟨rfl, List.nil_suffix⟩

/-- Every round is a turn. -/
theorem next_turn (m : Machine) : Turn m.plugins m.work m.happening m.next.plugins m.next.work := by
  unfold next happening
  cases hwork : m.work with
  | nil =>
    show Turn m.plugins [] [] m.plugins m.work
    rw [hwork]
    exact .idle
  | cons w rest =>
    cases w with
    | step reported s =>
      cases s with
      | act a =>
        simp only [perform, act]
        cases a.run m.plugins m.workspace with
        | ok answer w =>
          rw [report_plugins, report_work]
          exact .acted
        | error e w =>
          obtain ⟨hplugins, hwork⟩ := fail_turn { m with workspace := w } e rest
          rw [hplugins]
          exact .failed hwork
      | apply id inner body =>
        simp only [perform]
        by_cases hid : id ∈ m.plugins.applied
        · rw [if_pos (Plugins.isApplied_iff.mpr hid), if_pos (Plugins.isApplied_iff.mpr hid)]
          exact .appliedAgain hid
        · have hnot : ¬ m.plugins.isApplied id = true := fun h => hid (Plugins.isApplied_iff.mp h)
          rw [if_neg hnot, if_neg hnot]
          exact .applied hid
      | withPlugin id inner body =>
        simp only [perform]
        by_cases hid : id ∈ m.plugins.applied
        · rw [if_pos (Plugins.isApplied_iff.mpr hid), Plugins.isApplied_iff.mpr hid]
          exact .immediate hid
        · have hnot : m.plugins.isApplied id = false := Bool.eq_false_iff.mpr fun h => hid (Plugins.isApplied_iff.mp h)
          rw [hnot]
          exact .queued hid
      | attempt inner body => exact .attempt
    | handler h => exact .started
    | release id => exact .released
    | answer reported =>
      simp only [perform]
      rw [report_plugins, report_work]
      exact .answered
    | attempted reported =>
      simp only [perform]
      rw [report_plugins, report_work]
      exact .attempted

end Machine

/-! ## Bodies and handlers run once -/

open History Work

/-- The handlers that have come up: those started, those about to be, and those that wait. -/
def cameUp (log : List Happening) (ps : Plugins) (ws : List Work) : List Handler :=
  started log ++ handlers ws ++ ps.waiting.map (·.2)

/-- The plugins are what the history says, and every handler has come up once. -/
structure Recorded (log : List Happening) (ps : Plugins) (ws : List Work) : Prop where
  applied : applied log = ps.applied
  nodup : ps.applied.Nodup
  /-- Handlers are told apart by their tickets. -/
  tickets : (registered log).map (·.2.ticket) = List.range ps.registered
  once : ((cameUp log ps ws).map (·.ticket)).Nodup
  known : ∀ h ∈ cameUp log ps ws, ∃ id, (id, h) ∈ registered log

namespace Recorded

variable {log : List Happening} {ps qs : Plugins} {ws vs : List Work} {happening : List Happening}

/-- A handler yet to be registered has another ticket than those that have come up. -/
theorem fresh (h : Recorded log ps ws) : ps.registered ∉ (cameUp log ps ws).map (·.ticket) := by
  intro hmem
  obtain ⟨x, hx, hticket⟩ := List.mem_map.mp hmem
  obtain ⟨id, hid⟩ := h.known x hx
  have hrange : x.ticket ∈ List.range ps.registered := by
    rw [← h.tickets]
    exact List.mem_map.mpr ⟨(id, x), hid, rfl⟩
  exact absurd (hticket ▸ List.mem_range.mp hrange) (Nat.lt_irrefl _)

/-- What comes up in a turn that registers nothing has come up before. -/
theorem of_sublist (h : Recorded log ps ws) (happlied : History.applied happening = [])
    (hregistered : registered happening = []) (hps : qs.applied = ps.applied) (hcount : qs.registered = ps.registered)
    {before : List Handler} (hperm : (cameUp (log ++ happening) qs vs).Perm before)
    (hsub : before.Sublist (cameUp log ps ws)) : Recorded (log ++ happening) qs vs := by
  refine ⟨?_, hps ▸ h.nodup, ?_, ?_, ?_⟩
  · rw [applied_append, happlied, List.append_nil, hps]
    exact h.applied
  · rw [registered_append, hregistered, List.append_nil, hcount]
    exact h.tickets
  · exact (hperm.map _).nodup_iff.mpr ((hsub.map _).nodup h.once)
  · intro x hx
    obtain ⟨id, hid⟩ := h.known x (hsub.subset (hperm.subset hx))
    exact ⟨id, by simp [hid]⟩

/-- A turn that registers a handler adds it to those that have come up. -/
theorem of_registered (h : Recorded log ps ws) {id : PluginId} {inner waits : Bool} {body : List Step}
    (hps : qs.applied = ps.applied) (hcount : qs.registered = ps.registered + 1)
    (hperm : (cameUp (log ++ [.registered id (ps.handler inner body) waits]) qs vs).Perm
      (ps.handler inner body :: cameUp log ps ws)) :
    Recorded (log ++ [.registered id (ps.handler inner body) waits]) qs vs := by
  refine ⟨?_, hps ▸ h.nodup, ?_, ?_, ?_⟩
  · rw [applied_append, hps, ← h.applied]
    exact List.append_nil _
  · rw [registered_append, List.map_append, h.tickets, hcount, List.range_succ]
    rfl
  · refine (hperm.map _).nodup_iff.mpr ?_
    exact List.nodup_cons.mpr ⟨h.fresh, h.once⟩
  · intro x hx
    rcases List.mem_cons.mp (hperm.subset hx) with rfl | hx
    · exact ⟨id, by simp [registered]⟩
    · obtain ⟨other, hother⟩ := h.known x hx
      exact ⟨other, by simp [hother]⟩

/-- Those that wait for `id` and those that wait for another plugin are all that wait. -/
theorem waiting_perm (waiting : List (PluginId × Handler)) (id : PluginId) :
    ((waiting.filter (·.1 == id)).map (·.2) ++ (waiting.filter (·.1 != id)).map (·.2)).Perm (waiting.map (·.2)) := by
  rw [← List.map_append]
  exact (List.filter_append_perm (·.1 == id) waiting).map _

theorem turn (h : Recorded log ps ws) (ht : Turn ps ws happening qs vs) : Recorded (log ++ happening) qs vs := by
  cases ht with
  | idle => exact h.of_sublist rfl rfl rfl rfl (.of_eq (by simp [cameUp])) (.refl _)
  | acted => exact h.of_sublist rfl rfl rfl rfl (.of_eq (by simp [cameUp, handlers])) (.refl _)
  | @failed _ _ rest _ e hleft =>
    have hcame : cameUp (log ++ [.failed e]) ps vs = started log ++ handlers vs ++ ps.waiting.map (·.2) := by
      simp [cameUp, started]
    refine h.of_sublist rfl rfl rfl rfl (.of_eq hcame) ?_
    have hhandlers : (handlers vs).Sublist (handlers rest) := hleft.sublist.filterMap _
    exact (hhandlers.append_left _).append_right _
  | appliedAgain => exact h.of_sublist rfl rfl rfl rfl (.of_eq (by simp [cameUp, handlers])) (.refl _)
  | @applied reported inner id body rest hid =>
    have hcame : cameUp (log ++ [.applied id]) (ps.markApplied id) (workOf inner body ++ .release id :: .answer reported :: rest) =
        cameUp log ps (.step reported (.apply id inner body) :: rest) := by
      simp [cameUp, started, handlers, workOf, Plugins.markApplied]
    refine ⟨?_, ?_, ?_, hcame ▸ h.once, ?_⟩
    · rw [applied_append, h.applied]
      rfl
    · exact List.nodup_append.mpr ⟨h.nodup, List.nodup_cons.mpr ⟨List.not_mem_nil, .nil⟩, by
        rintro a ha _ hb rfl
        exact hid (List.mem_singleton.mp hb ▸ ha)⟩
    · rw [registered_append]
      exact (List.append_nil _).symm ▸ h.tickets
    · intro x hx
      obtain ⟨other, hother⟩ := h.known x (hcame ▸ hx)
      exact ⟨other, by simp [hother]⟩
  | @queued reported inner id body rest _ =>
    refine h.of_registered rfl rfl ?_
    have hcame : cameUp (log ++ [.registered id (ps.handler inner body) true])
        (ps.enqueue id (ps.handler inner body)).countHandler (.answer reported :: rest) =
        cameUp log ps (.step reported (.withPlugin id inner body) :: rest) ++ [ps.handler inner body] := by
      simp [cameUp, started, handlers, Plugins.enqueue, Plugins.countHandler]
    rw [hcame]
    exact List.perm_append_singleton ..
  | @immediate reported inner id body rest _ =>
    refine h.of_registered rfl rfl ?_
    have hcame : cameUp (log ++ [.registered id (ps.handler inner body) false]) ps.countHandler
        (.handler (ps.handler inner body) :: .answer reported :: rest) =
        started log ++ ps.handler inner body :: (handlers rest ++ ps.waiting.map (·.2)) := by
      simp [cameUp, started, handlers, Plugins.countHandler]
    have hbefore : cameUp log ps (.step reported (.withPlugin id inner body) :: rest) =
        started log ++ (handlers rest ++ ps.waiting.map (·.2)) := by
      simp [cameUp, handlers]
    rw [hcame, hbefore]
    exact List.perm_middle
  | attempt => exact h.of_sublist rfl rfl rfl rfl (.of_eq (by simp [cameUp, handlers, workOf])) (.refl _)
  | started => exact h.of_sublist rfl rfl rfl rfl (.of_eq (by simp [cameUp, handlers, History.started, workOf])) (.refl _)
  | @released id rest =>
    have hcame : cameUp (log ++ []) (ps.dismiss id) ((ps.waitingFor id).map .handler ++ rest) =
        started log ++ (ps.waitingFor id ++ (handlers rest ++ (ps.dismiss id).waiting.map (·.2))) := by
      simp [cameUp]
    have hbefore : cameUp log ps (.release id :: rest) = started log ++ (handlers rest ++ ps.waiting.map (·.2)) := by
      simp [cameUp, handlers]
    have hperm : (cameUp (log ++ []) (ps.dismiss id) ((ps.waitingFor id).map .handler ++ rest)).Perm
        (cameUp log ps (.release id :: rest)) := by
      rw [hcame, hbefore]
      refine List.Perm.append_left _ ((List.perm_append_comm_assoc ..).trans ?_)
      exact List.Perm.append_left _ (waiting_perm ps.waiting id)
    exact h.of_sublist rfl rfl rfl rfl hperm (.refl _)
  | answered => exact h.of_sublist rfl rfl rfl rfl (.of_eq (by simp [cameUp, handlers])) (.refl _)
  | attempted => exact h.of_sublist rfl rfl rfl rfl (.of_eq (by simp [cameUp, handlers])) (.refl _)

/-- No handler is started twice. -/
theorem started_nodup (h : Recorded log ps ws) : ((started log).map (·.ticket)).Nodup := by
  have honce := h.once
  rw [cameUp, List.append_assoc, List.map_append] at honce
  exact (List.nodup_append.mp honce).1

/-- Whatever fails, what the rounds of a script do to the plugins is what their history says. -/
theorem run {m : Machine} (n : Nat) (h : Recorded log m.plugins m.work) :
    Recorded (log ++ m.history n) (m.run n).plugins (m.run n).work := by
  induction n generalizing log m with
  | zero => simpa [history, Machine.run] using h
  | succ n ih =>
    rw [history, ← List.append_assoc]
    exact ih (h.turn m.next_turn)

end Recorded

/-! ## From rounds to scripts -/

/-- What is told of each of `n` rounds. -/
def Machine.told {τ : Type} (tell : Machine → List τ) : Nat → Machine → List τ
  | 0, _ => []
  | n + 1, m => tell m ++ told tell n m.next

/-- What is told of the rounds in which steps are performed one after another. -/
def Session.told {τ : Type} (tell : Machine → List τ) : List Step → Session → List τ
  | [], _ => []
  | first :: rest, s => (s.machine first).told tell (s.machine first).weight ++ told tell rest (s.perform first).2

theorem Machine.told_add {τ : Type} (tell : Machine → List τ) (a b : Nat) (m : Machine) :
    m.told tell (a + b) = m.told tell a ++ (m.run a).told tell b := by
  induction a generalizing m with
  | zero => rw [Nat.zero_add]; rfl
  | succ a ih =>
    rw [Nat.succ_add, told, told, ih m.next, List.append_assoc]
    rfl

theorem Machine.history_eq_told (n : Nat) (m : Machine) : m.history n = m.told happening n := by
  induction n generalizing m with
  | zero => rfl
  | succ n ih => rw [history, told, ih]

theorem Session.history_eq_told (steps : List Step) (s : Session) : history steps s = told happening steps s := by
  induction steps generalizing s with
  | nil => rfl
  | cons step steps ih => rw [history, told, ih, Machine.history_eq_told]

/-- What scripts made of steps of a kind keep as long as nothing fails, given what is told of the rounds: every round
    keeps it, and it does no harm to begin such a step when no work is left. -/
structure Accounted {τ : Type} (Q : Step → Prop) (tell : Machine → List τ)
    (I : List τ → Plugins → List Work → Project → Prop) : Prop where
  next : ∀ {log : List τ} {m : Machine}, I log m.plugins m.work m.workspace.project →
    failures m.happening = [] → I (log ++ tell m) m.next.plugins m.next.work m.next.workspace.project
  begin : ∀ {log : List τ} {s : Session}, I log s.plugins [] s.workspace.project → ∀ {step : Step}, Q step →
    I log (s.machine step).plugins (s.machine step).work (s.machine step).workspace.project

namespace Accounted

variable {τ : Type} {Q : Step → Prop} {tell : Machine → List τ} {I : List τ → Plugins → List Work → Project → Prop}
  {log : List τ}

theorem run (hI : Accounted Q tell I) (n : Nat) {m : Machine} (h : I log m.plugins m.work m.workspace.project)
    (hok : failures (m.history n) = []) :
    I (log ++ m.told tell n) (m.run n).plugins (m.run n).work (m.run n).workspace.project := by
  induction n generalizing log m with
  | zero => simpa [told, Machine.run] using h
  | succ n ih =>
    rw [history, failures_append] at hok
    obtain ⟨hfirst, hlater⟩ := List.append_eq_nil_iff.mp hok
    rw [told, ← List.append_assoc]
    exact ih (hI.next h hfirst) hlater

theorem performAll (hI : Accounted Q tell I) (steps : List Step) {s : Session} (h : I log s.plugins [] s.workspace.project)
    (hsteps : ∀ step ∈ steps, Q step) (hok : failures (Session.history steps s) = []) :
    I (log ++ Session.told tell steps s) (Session.performAll steps s).2.plugins []
      (Session.performAll steps s).2.workspace.project := by
  induction steps generalizing s log with
  | nil => simpa [Session.told, Session.performAll] using h
  | cons step steps ih =>
    rw [Session.history, failures_append] at hok
    obtain ⟨hfirst, hlater⟩ := List.append_eq_nil_iff.mp hok
    obtain ⟨hstep, hsteps⟩ := List.forall_mem_cons.mp hsteps
    have hdone := hI.run (s.machine step).weight (hI.begin h hstep) hfirst
    rw [Session.told, ← List.append_assoc]
    exact ih (s := (s.perform step).2) (Session.perform_of_finish (P := fun ps ws p => I _ ps ws p) hdone) hsteps hlater

/-- What scripts keep holds at any point of one. -/
theorem during (hI : Accounted Q tell I) (n : Nat) {before : List Step} {step : Step} {s : Session}
    (h : I log s.plugins [] s.workspace.project) (hbefore : ∀ step ∈ before, Q step) (hstep : Q step)
    (hok : failures (Session.history before s ++ ((Session.performAll before s).2.machine step).history n) = []) :
    let m := (Session.performAll before s).2.machine step
    I (log ++ Session.told tell before s ++ m.told tell n) (m.run n).plugins (m.run n).work (m.run n).workspace.project := by
  rw [failures_append] at hok
  obtain ⟨hfirst, hlater⟩ := List.append_eq_nil_iff.mp hok
  exact hI.run n (hI.begin (hI.performAll before h hbefore hfirst) hstep) hlater

end Accounted

/-- What they keep, given what happens in the rounds. -/
abbrev Carried (Q : Step → Prop) (I : List Happening → Plugins → List Work → Project → Prop) : Prop :=
  Accounted Q happening I

end BuildGraph

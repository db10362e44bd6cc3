/-
  BuildGraph.Proofs.Script.Applications: what it means that a plugin was applied.

  A call that applies a plugin starts its body, takes the handlers that wait for it, runs them and
  answers. A failure in between ends it, and the plugin counts as applied all the same. `Application`
  follows the one call that gets to start the body, from round to round; an inner failure that an
  attempt catches does not end it.

  While it is under way the work stands in layers: what the body or a handler still has to do, the
  handlers that are left, the answer, and what was there before the call. A failure takes away the upper
  layers or comes out below the answer, since no attempt stands between them (`Machine.next_layer`).

  - `Tracks.next`: each round keeps the layers and knows where the handlers are.
  - `Session.apply_settles`: whatever failed before, a call that answers stands for a body that has run
    and for handlers that were all started once, unless the call that started the body had failed.
  - `Session.an_aborted_application_keeps_its_handlers`: if it had, they may wait for ever.
-/

import BuildGraph.Proofs.Script.Calls
import BuildGraph.Proofs.Script.Handlers

namespace BuildGraph

open History Machine

/-! ## How far an application has come -/

/-- How far the application of a plugin has come. While it is under way, `depth` pieces of work are left once only
    its answer is to be given. -/
inductive Application where
  | unapplied
  /-- The body is being run. -/
  | inBody (depth : Nat)
  /-- The body has run, and the handlers that waited are being run. -/
  | inHandlers (depth : Nat)
  /-- The body and the handlers have run, and the call was answered. -/
  | returned
  /-- The body or a handler failed, and that ended the call. -/
  | failed
  deriving DecidableEq, Repr

/-- The plugin whose waiting handlers are taken in the next round. -/
def Machine.released (m : Machine) : Option PluginId :=
  match m.work with
  | .release id :: _ => some id
  | _ => none

theorem Machine.released_eq_some {m : Machine} {id : PluginId} :
    m.released = some id ↔ ∃ rest, m.work = .release id :: rest := by
  unfold released
  split
  · rename_i other rest hwork
    simp [hwork]
  · rename_i hwork
    simpa using hwork id

namespace Application

/-- How many pieces of work are left once only the answer is to be given, while the call is under way. -/
def depth? : Application → Option Nat
  | inBody depth => some depth
  | inHandlers depth => some depth
  | _ => none

/-- The body or a handler is being run. -/
def isUnderway (a : Application) : Bool := a.depth?.isSome

/-- How far the application of `id` has come after the next round. -/
def next (id : PluginId) (m : Machine) : Application → Application
  | unapplied => if m.next.plugins.isApplied id then inBody m.work.length else unapplied
  | inBody depth =>
    if m.next.work.length < depth then failed
    else if m.released = some id then inHandlers depth
    else inBody depth
  | inHandlers depth =>
    if depth ≤ m.next.work.length then inHandlers depth
    else if (failures m.happening).isEmpty then returned
    else failed
  | returned => returned
  | failed => failed

end Application

/-- How far the application of `id` has come after `n` rounds. -/
def Machine.application (id : PluginId) : Nat → Machine → Application → Application
  | 0, _, a => a
  | n + 1, m, a => application id n m.next (a.next id m)

/-- How far the application of `id` has come after steps that are performed one after another. -/
def Session.application (id : PluginId) : List Step → Session → Application → Application
  | [], _, a => a
  | step :: steps, s, a =>
    application id steps (s.perform step).2 ((s.machine step).application id (s.machine step).weight a)

/-! ## What a round does to the handlers that wait -/

namespace Turn

variable {ps qs : Plugins} {ws vs : List Work} {happening : List Happening} {id : PluginId}

/-- As long as a plugin is not applied there is nothing to release. -/
theorem release_not_mem (ht : Turn ps ws happening qs vs) (hid : id ∉ qs.applied) (hws : .release id ∉ ws) :
    .release id ∉ vs := by
  cases ht with
  | idle => exact hws
  | failed hleft => exact fun hmem => hws (List.mem_cons_of_mem _ (hleft.subset hmem))
  | @applied _ _ other =>
    have hne : id ≠ other := by
      rintro rfl
      exact hid (by simp [Plugins.markApplied])
    simpa [workOf, hne] using hws
  | released => exact fun hmem => hws (List.mem_cons_of_mem _ (by simpa using hmem))
  | _ => simpa [workOf] using hws

/-- A plugin comes to be applied in the call that starts its body. -/
theorem applied_cases (ht : Turn ps ws happening qs vs) (hps : id ∉ ps.applied) (hqs : id ∈ qs.applied) :
    ∃ reported inner body rest, ws = .step reported (.apply id inner body) :: rest ∧ qs = ps.markApplied id ∧
      happening = [.applied id] ∧ vs = workOf inner body ++ .release id :: .answer reported :: rest := by
  cases ht with
  | @applied reported inner other body rest _ =>
    obtain rfl : id = other := by
      refine (List.mem_append.mp hqs).elim (fun h => absurd h hps) List.mem_singleton.mp
    exact ⟨reported, inner, body, rest, rfl, rfl, rfl, rfl⟩
  | _ => exact absurd hqs hps

theorem released_inv {rest : List Work} (ht : Turn ps (.release id :: rest) happening qs vs) :
    happening = [] ∧ qs = ps.dismiss id ∧ vs = (ps.waitingFor id).map .handler ++ rest := by
  cases ht
  exact ⟨rfl, rfl, rfl⟩

theorem started_inv {h : Handler} {rest : List Work} (ht : Turn ps (.handler h :: rest) happening qs vs) :
    happening = [.started h] ∧ qs = ps ∧ vs = workOf h.reported h.body ++ rest := by
  cases ht
  exact ⟨rfl, rfl, rfl⟩

theorem answered_inv {reported : Bool} {rest : List Work} (ht : Turn ps (.answer reported :: rest) happening qs vs) :
    happening = [] ∧ qs = ps ∧ vs = rest := by
  cases ht
  exact ⟨rfl, rfl, rfl⟩

/-- The handlers that wait for a plugin are those that were queued for it, until they are taken. -/
theorem queued_eq {log : List Happening} (ht : Turn ps ws happening qs vs) (hws : ∀ rest, ws ≠ .release id :: rest)
    (h : History.queued log id = ps.waitingFor id) : History.queued (log ++ happening) id = qs.waitingFor id := by
  rw [queued_append, h]
  cases ht with
  | @queued _ inner other body _ _ =>
    rw [Plugins.waitingFor_countHandler, Plugins.waitingFor_enqueue]
    by_cases ho : other = id <;> simp [History.queued, ho]
  | @released other rest =>
    have hne : other ≠ id := by
      rintro rfl
      exact hws rest rfl
    simp [History.queued, Plugins.waitingFor_dismiss, hne]
  | _ => simp [History.queued]

/-- No handler comes to wait for a plugin that is applied. -/
theorem none_waits (ht : Turn ps ws happening qs vs) (hid : id ∈ ps.applied) :
    History.queued happening id = [] ∧ (ps.waitingFor id = [] → qs.waitingFor id = []) := by
  cases ht with
  | @queued _ inner other body _ hother =>
    have hne : other ≠ id := by
      rintro rfl
      exact hother hid
    rw [Plugins.waitingFor_countHandler, Plugins.waitingFor_enqueue]
    simp [History.queued, hne]
  | released =>
    rw [Plugins.waitingFor_dismiss]
    exact ⟨rfl, fun h => by simp [h]⟩
  | _ => exact ⟨rfl, fun h => h⟩

end Turn

/-! ## The layers of a call -/

/-- The handlers that waited for `id` were taken. Of those queued for it, `hs` are yet to be started. -/
structure Taken (id : PluginId) (log : List Happening) (ps : Plugins) (hs : List Handler) : Prop where
  applied : id ∈ ps.applied
  noneWaits : ps.waitingFor id = []
  started : ∀ h ∈ queued log id, h ∈ started log ∨ h ∈ hs

namespace Taken

variable {id : PluginId} {log : List Happening} {ps qs : Plugins} {hs : List Handler} {h : Handler} {ws vs : List Work}
  {happening : List Happening}

theorem turn (h : Taken id log ps hs) (ht : Turn ps ws happening qs vs) : Taken id (log ++ happening) qs hs := by
  obtain ⟨hqueued, hwaiting⟩ := ht.none_waits h.applied
  refine ⟨ht.mem_applied h.applied, hwaiting h.noneWaits, fun x hx => ?_⟩
  rw [queued_append, hqueued, List.append_nil] at hx
  rw [started_append]
  exact (h.started x hx).imp_left (List.mem_append_left _)

/-- The first of the handlers is started. -/
theorem start (ht : Taken id log ps (h :: hs)) : Taken id (log ++ [.started h]) ps hs := by
  refine ⟨ht.applied, ht.noneWaits, fun x hx => ?_⟩
  have hx : x ∈ queued log id := by simpa [queued] using hx
  have hstarted : History.started (log ++ [.started h]) = History.started log ++ [h] := by simp [History.started]
  rw [hstarted, List.mem_append, List.mem_singleton, or_assoc]
  exact (ht.started x hx).imp_right List.mem_cons.mp

end Taken

/-- What the work looks like and where the handlers for `id` are, by how far its application has come. -/
inductive Tracks (id : PluginId) (log : List Happening) (ps : Plugins) (ws : List Work) : Application → Prop
  | unapplied : id ∉ ps.applied → .release id ∉ ws → queued log id = ps.waitingFor id →
    Tracks id log ps ws .unapplied
  | inBody {upper below : List Work} {reported : Bool} : id ∈ ps.applied →
    ws = upper ++ ([.release id, .answer reported] ++ below) → .release id ∉ upper →
    queued log id = ps.waitingFor id → Tracks id log ps ws (.inBody (below.length + 1))
  | inHandlers {upper below : List Work} {hs : List Handler} {reported : Bool} : Taken id log ps hs →
    ws = upper ++ ((hs.map .handler ++ [.answer reported]) ++ below) →
    Tracks id log ps ws (.inHandlers (below.length + 1))
  | returned : Taken id log ps [] → Tracks id log ps ws .returned
  | failed : id ∈ ps.applied → Tracks id log ps ws .failed

/-- A handler of an applied plugin is started in the round after the one that registers it. -/
def Prompt (log : List Happening) (ws : List Work) : Prop :=
  ∀ id h, .registered id h false ∈ log → h ∈ started log ∨ ∃ rest, ws = .handler h :: rest

theorem Prompt.turn {log happening : List Happening} {ps qs : Plugins} {ws vs : List Work} (h : Prompt log ws)
    (ht : Turn ps ws happening qs vs) : Prompt (log ++ happening) vs := by
  intro id x hx
  rw [started_append]
  rcases List.mem_append.mp hx with hx | hx
  · rcases h id x hx with hstarted | ⟨rest, rfl⟩
    · exact .inl (List.mem_append_left _ hstarted)
    · cases ht
      exact .inl (List.mem_append_right _ (List.mem_singleton_self x))
  · cases ht with
    | immediate =>
      cases List.mem_singleton.mp hx
      exact .inr ⟨_, rfl⟩
    | _ => simp at hx

namespace Tracks

variable {id : PluginId} {log : List Happening} {m : Machine} {a : Application} {upper below : List Work}
  {reported : Bool}

/-- A round while the body is under way: the handlers that wait are taken at its end. -/
theorem next_inBody (hid : id ∈ m.plugins.applied)
    (hwork : m.work = upper ++ ([.release id, .answer reported] ++ below)) (hupper : .release id ∉ upper)
    (hqueued : queued log id = m.plugins.waitingFor id) :
    Tracks id (log ++ m.happening) m.next.plugins m.next.work ((Application.inBody (below.length + 1)).next id m) := by
  have ht := m.next_turn
  have happlied := ht.mem_applied hid
  cases upper with
  | nil =>
    obtain ⟨hhappening, hps, hleft⟩ :=
      (hwork ▸ ht : Turn _ (.release id :: .answer reported :: below) _ _ _).released_inv
    have hlength : ¬ m.next.work.length < below.length + 1 := by
      rw [hleft, List.length_append, List.length_cons]
      omega
    have htaken : Taken id (log ++ m.happening) m.next.plugins (m.plugins.waitingFor id) := by
      refine ⟨happlied, ?_, ?_⟩
      · rw [hps, Plugins.waitingFor_dismiss, if_pos rfl]
      · rw [hhappening, List.append_nil, hqueued]
        exact fun h => .inr
    have hlayers : m.next.work = [] ++ (((m.plugins.waitingFor id).map .handler ++ [.answer reported]) ++ below) := by
      simpa using hleft
    rw [Application.next, if_neg hlength, if_pos (released_eq_some.mpr ⟨_, hwork⟩)]
    exact .inHandlers htaken hlayers
  | cons w upper =>
    have hw : ∀ rest, m.work ≠ .release id :: rest := by
      intro rest hrest
      obtain rfl : w = .release id := (List.cons.inj (hwork.symm.trans hrest)).1
      exact hupper (List.mem_cons_self ..)
    rcases next_layer id hwork (by simp) with ⟨upper', hleft, hrelease⟩ | ⟨hle, -⟩
    · have hlength : ¬ m.next.work.length < below.length + 1 := by
        simp only [hleft, List.length_append, List.length_cons]
        omega
      rw [Application.next, if_neg hlength, if_neg fun h => hw _ (released_eq_some.mp h).choose_spec]
      refine .inBody happlied hleft (hrelease hid fun h => hupper (List.mem_cons_of_mem _ h)) ?_
      exact ht.queued_eq hw hqueued
    · rw [Application.next, if_pos (Nat.lt_succ_of_le hle)]
      exact .failed happlied

/-- A round while the handlers are under way: they are started one after another, and then the answer is given. -/
theorem next_inHandlers {hs : List Handler} (htaken : Taken id log m.plugins hs)
    (hwork : m.work = upper ++ ((hs.map .handler ++ [.answer reported]) ++ below)) :
    Tracks id (log ++ m.happening) m.next.plugins m.next.work
      ((Application.inHandlers (below.length + 1)).next id m) := by
  have ht := m.next_turn
  cases upper with
  | cons w upper =>
    rcases next_layer id hwork (by simp) with ⟨upper', hleft, -⟩ | ⟨hle, hfailed⟩
    · have hlength : below.length + 1 ≤ m.next.work.length := by
        simp only [hleft, List.length_append, List.length_cons]
        omega
      rw [Application.next, if_pos hlength]
      exact .inHandlers (htaken.turn ht) hleft
    · have hok : ¬ (failures m.happening).isEmpty = true := fun h => hfailed (List.isEmpty_iff.mp h)
      rw [Application.next, if_neg (Nat.not_le_of_lt (Nat.lt_succ_of_le hle)), if_neg hok]
      exact .failed (ht.mem_applied htaken.applied)
  | nil =>
    cases hs with
    | cons h hs =>
      obtain ⟨hhappening, hps, hleft⟩ := (hwork ▸ ht :
        Turn _ (.handler h :: (hs.map .handler ++ [.answer reported] ++ below)) _ _ _).started_inv
      have hlength : below.length + 1 ≤ m.next.work.length := by
        simp only [hleft, List.length_append, List.length_cons]
        omega
      rw [Application.next, if_pos hlength, hhappening, hps]
      exact .inHandlers htaken.start hleft
    | nil =>
      obtain ⟨hhappening, -, hleft⟩ := (hwork ▸ ht : Turn _ (.answer reported :: below) _ _ _).answered_inv
      have hlength : ¬ below.length + 1 ≤ m.next.work.length := by
        rw [hleft]
        omega
      rw [Application.next, if_neg hlength, hhappening]
      exact .returned (htaken.turn (hhappening ▸ ht))

theorem next (h : Tracks id log m.plugins m.work a) :
    Tracks id (log ++ m.happening) m.next.plugins m.next.work (a.next id m) := by
  have ht := m.next_turn
  cases h with
  | unapplied hid hrelease hqueued =>
    by_cases hnext : id ∈ m.next.plugins.applied
    · obtain ⟨reported, inner, body, rest, hwork, hps, hhappening, hleft⟩ := ht.applied_cases hid hnext
      rw [Application.next, if_pos (Plugins.isApplied_iff.mpr hnext), hwork]
      have hlayers : m.next.work = workOf inner body ++ ([.release id, .answer reported] ++ rest) := hleft
      refine .inBody hnext hlayers (by simp [workOf]) ?_
      rw [hhappening, hps]
      simpa [queued] using hqueued
    · rw [Application.next, if_neg fun h => hnext (Plugins.isApplied_iff.mp h)]
      refine .unapplied hnext (ht.release_not_mem hnext hrelease) (ht.queued_eq (fun rest hwork => ?_) hqueued)
      exact hrelease (hwork ▸ List.mem_cons_self ..)
  | inBody hid hwork hupper hqueued => exact next_inBody hid hwork hupper hqueued
  | inHandlers htaken hwork => exact next_inHandlers htaken hwork
  | returned htaken => exact .returned (htaken.turn ht)
  | failed hid => exact .failed (ht.mem_applied hid)

/-- Between two steps no call is under way. -/
theorem restart {ps : Plugins} (h : Tracks id log ps [] a) (step : Step) : Tracks id log ps [.step false step] a := by
  cases h with
  | unapplied hid _ hqueued => exact .unapplied hid (by simp) hqueued
  | inBody _ hwork => simp at hwork
  | inHandlers _ hwork => simp at hwork
  | returned htaken => exact .returned htaken
  | failed hid => exact .failed hid

/-- Once only the answer is left to be given, the handlers were taken and started, and the call returns next. -/
theorem answered {rest : List Work} (h : Tracks id log m.plugins m.work a) (hwork : m.work = .answer reported :: rest)
    (ha : a = .returned ∨ a.depth? = some (rest.length + 1)) :
    Taken id log m.plugins [] ∧ a.next id m = .returned := by
  cases h with
  | unapplied => simp [Application.depth?] at ha
  | @inBody upper below _ _ hlayers =>
    -- the handlers are yet to be taken, so more than the answer is left
    have hlength := congrArg List.length (hwork.symm.trans hlayers)
    simp [Application.depth?] at ha hlength
    omega
  | @inHandlers upper below hs _ htaken hlayers =>
    have hlength := congrArg List.length (hwork.symm.trans hlayers)
    simp [Application.depth?] at ha hlength
    obtain rfl : hs = [] := List.eq_nil_of_length_eq_zero (by omega)
    obtain ⟨hhappening, -, hleft⟩ := (hwork ▸ m.next_turn : Turn _ (.answer reported :: rest) _ _ _).answered_inv
    refine ⟨htaken, ?_⟩
    rw [Application.next, hleft, if_neg (by omega), hhappening]
    rfl
  | returned htaken => exact ⟨htaken, rfl⟩
  | failed => simp [Application.depth?] at ha

end Tracks

/-! ## Runs -/

namespace Machine

variable {m : Machine} {id : PluginId} {a : Application} {depth : Nat}

theorem history_add (k n : Nat) (m : Machine) : m.history (k + n) = m.history k ++ (m.run k).history n := by
  rw [history_eq_told, history_eq_told, history_eq_told, told_add]

theorem application_succ (n : Nat) (m : Machine) (a : Application) :
    m.application id (n + 1) a = (m.application id n a).next id (m.run n) := by
  induction n generalizing m a with
  | zero => rfl
  | succ n ih => exact ih m.next (a.next id m)

theorem application_returned (n : Nat) (m : Machine) : m.application id n .returned = .returned := by
  induction n generalizing m with
  | zero => rfl
  | succ n ih => exact ih m.next

/-- A call is under way for as long as its answer is among the work. -/
theorem depth_application (n : Nat) (ha : a.depth? = some depth) (hwork : ∀ k ≤ n, depth ≤ (m.run k).work.length) :
    (m.application id n a).depth? = some depth := by
  induction n with
  | zero => exact ha
  | succ n ih =>
    rw [application_succ]
    have hlength : depth ≤ (m.run n).next.work.length := by
      have hnext := hwork (n + 1) (Nat.le_refl _)
      rwa [run_add] at hnext
    have hbefore := ih fun k hk => hwork k (Nat.le_succ_of_le hk)
    cases ha : m.application id n a with
    | inBody d =>
      rw [ha] at hbefore
      obtain rfl : d = depth := Option.some.inj hbefore
      rw [Application.next, if_neg (Nat.not_lt_of_le hlength)]
      split <;> rfl
    | inHandlers d =>
      rw [ha] at hbefore
      obtain rfl : d = depth := Option.some.inj hbefore
      rw [Application.next, if_pos hlength]
      rfl
    | _ =>
      rw [ha] at hbefore
      cases hbefore

end Machine

/-- What the rounds of a script keep, the application of `id` having come as far as `a`. -/
structure Follows (id : PluginId) (log : List Happening) (ps : Plugins) (ws : List Work) (a : Application) : Prop where
  recorded : Recorded log ps ws
  prompt : Prompt log ws
  tracks : Tracks id log ps ws a

namespace Follows

variable {id : PluginId} {log : List Happening} {ps : Plugins} {a : Application} {m : Machine}

theorem next (h : Follows id log m.plugins m.work a) :
    Follows id (log ++ m.happening) m.next.plugins m.next.work (a.next id m) :=
  ⟨h.recorded.turn m.next_turn, h.prompt.turn m.next_turn, h.tracks.next⟩

theorem run (n : Nat) (h : Follows id log m.plugins m.work a) :
    Follows id (log ++ m.history n) (m.run n).plugins (m.run n).work (m.application id n a) := by
  induction n generalizing log m a with
  | zero => simpa [history, Machine.run, application] using h
  | succ n ih =>
    rw [history, ← List.append_assoc]
    exact ih h.next

theorem restart {s : Session} (h : Follows id log s.plugins [] a) (step : Step) :
    Follows id log (s.machine step).plugins (s.machine step).work a := by
  refine ⟨Session.machine_recorded h.recorded step, fun other x hx => ?_, h.tracks.restart step⟩
  exact .inl ((h.prompt other x hx).resolve_right (by simp))

theorem start (p : Project) : Follows id [] (Session.start p).plugins [] .unapplied :=
  ⟨Session.start_recorded p, by simp [Prompt], .unapplied List.not_mem_nil List.not_mem_nil rfl⟩

theorem performAll (steps : List Step) {s : Session} (h : Follows id log s.plugins [] a) :
    Follows id (log ++ Session.history steps s) (Session.performAll steps s).2.plugins []
      (Session.application id steps s a) := by
  induction steps generalizing s log a with
  | nil => simpa [Session.history, Session.performAll, Session.application] using h
  | cons step steps ih =>
    have hstep := (h.restart step).run (s.machine step).weight
    rw [Session.history, ← List.append_assoc]
    exact ih (s := (s.perform step).2) (Session.perform_of_finish (P := fun ps ws _ => Follows id _ ps ws _) hstep)

/-- Once only the answer is left to be given, every handler registered for the plugin was started, once. -/
theorem started_once {ws rest : List Work} {reported : Bool} (h : Follows id log ps ws a)
    (hws : ws = .answer reported :: rest) (htaken : Taken id log ps []) {x : Handler} (hx : (id, x) ∈ registered log) :
    x ∈ started log ∧ ((started log).map (·.ticket)).count x.ticket = 1 := by
  have hstarted : x ∈ started log := by
    rcases mem_registered hx with hx | hx
    · exact (htaken.started x hx).resolve_right List.not_mem_nil
    · exact (h.prompt id x hx).resolve_right (by simp [hws])
  exact ⟨hstarted, List.count_eq_one_of_mem h.recorded.started_nodup (List.mem_map_of_mem hstarted)⟩

end Follows

/-- The call that starts the body is followed until only its answer is left to be given. -/
theorem Machine.application_of_answers {m : Machine} {id : PluginId} {reported inner : Bool} {body : List Step}
    {rest : List Work} {n : Nat} (hwork : m.work = .step reported (.apply id inner body) :: rest)
    (hok : m.Answers reported rest n) : (m.application id n .unapplied).depth? = some (rest.length + 1) := by
  cases n with
  | zero =>
    have hnone := hwork.symm.trans hok.answer
    simp at hnone
  | succ n =>
    have happlied : id ∈ m.next.plugins.applied := by
      have ht := m.next_turn
      rw [hwork] at ht
      exact ht.applies
    have hfirst : Application.unapplied.next id m = .inBody (rest.length + 1) := by
      rw [Application.next, if_pos (Plugins.isApplied_iff.mpr happlied), hwork, List.length_cons]
    rw [application, hfirst]
    exact depth_application n rfl fun k hk => hok.within (k + 1) (Nat.succ_le_succ hk)

/-- Whatever failed before: when a call that applies the plugin `id` answers, and no other call that applies it is
    under way, then the body of a plugin with that identity has run to its end, every handler that was ever
    registered for it was started, and that once, and none waits, unless the call that started the body had ended
    with an error. -/
theorem Session.apply_settles (settings : Settings) (before : List Step) (step : Step) (k n : Nat) (id : PluginId)
    (reported inner : Bool) (body : List Step) (rest : List Work) :
    let start := start (.ofSettings settings)
    let s := (performAll before start).2
    let m := (s.machine step).run k
    let earlier := (s.machine step).application id k (application id before start .unapplied)
    let log := history before start ++ (s.machine step).history (k + (n + 1))
    m.work = .step reported (.apply id inner body) :: rest → earlier.isUnderway = false → earlier ≠ .failed →
    m.Answers reported rest n →
      m.application id (n + 1) earlier = .returned ∧ (m.run (n + 1)).plugins.pending id = 0 ∧
      ∀ h, (id, h) ∈ registered log → h ∈ started log ∧ ((started log).map (·.ticket)).count h.ticket = 1 := by
  intro start s m earlier log hcall hidle hfailed hok
  have hm : Follows id (history before start ++ (s.machine step).history k) m.plugins m.work earlier :=
    (((Follows.start (.ofSettings settings)).performAll before).restart step).run k
  have hn := hm.run n
  have hstatus : m.application id n earlier = .returned ∨
      (m.application id n earlier).depth? = some (rest.length + 1) := by
    cases he : earlier with
    | unapplied => exact .inr (application_of_answers hcall hok)
    | returned => exact .inl (application_returned n m)
    | failed => exact absurd he hfailed
    | _ => simp [he, Application.isUnderway, Application.depth?] at hidle
  obtain ⟨htaken, hreturned⟩ := hn.tracks.answered hok.answer hstatus
  -- the last round gives the answer and does nothing else
  obtain ⟨hhappening, hps, -⟩ :=
    (hok.answer ▸ (m.run n).next_turn : Turn _ (.answer reported :: rest) _ _ _).answered_inv
  have hlast : m.run (n + 1) = (m.run n).next := run_add n 1 m
  have hlog : log = history before start ++ (s.machine step).history k ++ m.history n := by
    have hsplit : log = history before start ++ ((s.machine step).history k ++ m.history (n + 1)) :=
      congrArg (history before start ++ ·) (history_add ..)
    have hnothing : (m.run n).history 1 = [] := by
      rw [Machine.history, hhappening]
      rfl
    rw [hsplit, history_add n 1, hnothing, List.append_nil, List.append_assoc]
  refine ⟨?_, ?_, fun h hh => ?_⟩
  · rw [application_succ, hreturned]
  · rw [hlast, hps, Plugins.pending, htaken.noneWaits]
    rfl
  · rw [hlog] at hh ⊢
    exact hn.started_once hok.answer htaken hh

namespace Session

/-- A handler waits for `base`, a step fails, and then `base` is applied, with a body that attempts what fails and
    registers another handler. -/
theorem apply_settles_after_errors :
    let missing : Step := .act (.sourceSet (.get "missing"))
    let body : List Step := [.attempt false [missing], .withPlugin "base" false []]
    let before : List Step := [.withPlugin "base" false [], missing]
    let start := start (.ofSettings {})
    let m := (performAll before start).2.machine (.apply "base" false body)
    let earlier := application "base" before start .unapplied
    failures (history before start) ≠ [] ∧ (registered (history before start)).map (·.1) = ["base"] ∧
      m.work = [.step false (.apply "base" false body)] ∧ earlier.isUnderway = false ∧ earlier ≠ .failed ∧
      ∃ n, m.Answers false [] n ∧ m.application "base" (n + 1) earlier = .returned ∧
        (m.run (n + 1)).plugins.pending "base" = 0 ∧
        let log := history before start ++ m.history (n + 1)
        ∀ h, ("base", h) ∈ registered log → h ∈ started log ∧ ((started log).map (·.ticket)).count h.ticket = 1 := by
  intro missing body before start m earlier
  have hwork : m.work = [.step false (.apply "base" false body)] := rfl
  have hidle : earlier.isUnderway = false := rfl
  have hfailed : earlier ≠ .failed := by decide
  obtain ⟨n, hanswers⟩ : ∃ n, m.Answers false [] n := answers_of_isOk (by decide +kernel)
  obtain ⟨hreturned, hpending, hstarted⟩ :=
    apply_settles {} before (.apply "base" false body) 0 n "base" false false body [] hwork hidle hfailed hanswers
  rw [Nat.zero_add] at hstarted
  exact ⟨by decide, rfl, hwork, hidle, hfailed, n, hanswers, hreturned, hpending, hstarted⟩

/-- The body of `base` fails while a handler waits. The next call that applies `base` answers, but the body does not
    run again, and the handler is not started. -/
theorem an_aborted_application_keeps_its_handlers :
    let before : List Step :=
      [.withPlugin "base" false [], .apply "base" false [.act (.sourceSet (.get "missing"))]]
    let step : Step := .apply "base" false []
    let start := start (.ofSettings {})
    let s := (performAll before start).2
    let m := s.machine step
    let earlier := application "base" before start .unapplied
    let log := history before start ++ (s.machine step).history 2
    m.work = [.step false (.apply "base" false [])] ∧ earlier.isUnderway = false ∧ m.Answers false [] 1 ∧
      m.application "base" 2 earlier = .failed ∧ (m.run 2).plugins.pending "base" = 1 ∧
      (registered log).map (·.1) = ["base"] ∧ started log = [] := by
  exact ⟨rfl, rfl, ⟨rfl, by decide⟩, rfl, rfl, rfl, rfl⟩

end Session

end BuildGraph

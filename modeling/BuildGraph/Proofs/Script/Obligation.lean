/-
  BuildGraph.Proofs.Script.Obligation: what a script that does not fail is bound to do.

  A step lies ahead if it stands in the work, or in the body of a handler that is about to be started. As
  long as nothing fails it stays ahead until it comes first and is done. A step in the body of a handler
  that waits for a plugin lies ahead as soon as the plugin has been applied and its handlers are taken.

  So what a step brings about once it is done (`Owed`), or what it will bring about after a plugin was
  applied (`Expected`), is carried through a script turn by turn: it is enough to say what becomes of it in
  the turn that does the step.

  - `Expected.met`: in the end, what was due for plugins that are applied has come about.
-/

import BuildGraph.Proofs.Script.Handlers

namespace BuildGraph

open History Machine Work

/-! ## What lies ahead -/

/-- `s` stands in the work, or in the body of a handler that does. -/
def Ahead (ws : List Work) (s : Step) : Prop :=
  (∃ reported, .step reported s ∈ ws) ∨ ∃ h, .handler h ∈ ws ∧ s ∈ h.body

/-- `s` is the first piece of the work. -/
def First (ws : List Work) (s : Step) : Prop := ∃ reported rest, ws = .step reported s :: rest

/-- `s` is in the body of a handler that waits for `id`. -/
def Waits (ps : Plugins) (id : PluginId) (s : Step) : Prop := ∃ h ∈ ps.waitingFor id, s ∈ h.body

section

variable {ps qs : Plugins} {ws vs : List Work} {happening : List Happening} {s : Step} {id : PluginId} {P Q : Prop}

theorem mem_workOf {reported inner : Bool} {body : List Step} :
    .step reported s ∈ workOf inner body ↔ inner = reported ∧ s ∈ body := by
  simp only [workOf, List.mem_map, Work.step.injEq]
  constructor
  · rintro ⟨x, hx, rfl, rfl⟩
    exact ⟨rfl, hx⟩
  · rintro ⟨rfl, hs⟩
    exact ⟨s, hs, rfl, rfl⟩

theorem Ahead.mono (h : Ahead ws s) (hsub : ws ⊆ vs) : Ahead vs s := by
  rcases h with ⟨reported, hs⟩ | ⟨x, hx, hs⟩
  · exact .inl ⟨reported, hsub hs⟩
  · exact .inr ⟨x, hsub hx, hs⟩

theorem Ahead.of_mem {inner : Bool} {body : List Step} (hs : s ∈ body) (hsub : workOf inner body ⊆ vs) : Ahead vs s :=
  .inl ⟨inner, hsub (mem_workOf.mpr ⟨rfl, hs⟩)⟩

/-- Work that follows stays, unless something fails. -/
theorem Turn.rest_subset {w : Work} {rest : List Work} (ht : Turn ps (w :: rest) happening qs vs)
    (hok : failures happening = []) : rest ⊆ vs := by
  intro x hx
  cases ht with
  | failed hleft => cases hok
  | acted => exact hx
  | answered => exact hx
  | attempted => exact hx
  | _ => simp [hx]

/-- What lies ahead stays ahead until it is done. -/
theorem Ahead.turn (h : Ahead ws s) (ht : Turn ps ws happening qs vs) (hok : failures happening = []) :
    Ahead vs s ∨ First ws s := by
  cases ws with
  | nil => rcases h with ⟨_, hs⟩ | ⟨_, hs, _⟩ <;> cases hs
  | cons w rest =>
    have hrest := ht.rest_subset hok
    rcases h with ⟨reported, hs⟩ | ⟨x, hx, hs⟩
    · rcases List.mem_cons.mp hs with rfl | hs
      · exact .inr ⟨reported, rest, rfl⟩
      · exact .inl (.inl ⟨reported, hrest hs⟩)
    · rcases List.mem_cons.mp hx with rfl | hx
      · cases ht
        exact .inl (.of_mem hs (List.subset_append_left ..))
      · exact .inl (.inr ⟨x, hrest hx, hs⟩)

/-- A handler waits until the handlers of its plugin are taken. -/
theorem Waits.turn (h : Waits ps id s) (ht : Turn ps ws happening qs vs) :
    Waits qs id s ∨ (id ∈ releases ws ∧ Ahead vs s) := by
  obtain ⟨x, hx, hs⟩ := h
  cases ht with
  | @queued _ _ other =>
    refine .inl ⟨x, ?_, hs⟩
    show x ∈ (ps.enqueue other _).waitingFor id
    rw [Plugins.waitingFor_enqueue]
    exact List.mem_append_left _ hx
  | @released other =>
    by_cases he : other = id
    · subst he
      refine .inr ⟨by simp [releases], .inr ⟨x, ?_, hs⟩⟩
      exact List.mem_append_left _ (List.mem_map_of_mem hx)
    · refine .inl ⟨x, ?_, hs⟩
      rw [Plugins.waitingFor_dismiss, if_neg he]
      exact hx
  | _ => exact .inl ⟨x, hx, hs⟩

/-! ## What is owed -/

/-- `P`, or the step that brings it about lies ahead. -/
def Owed (ws : List Work) (s : Step) (P : Prop) : Prop := Ahead ws s ∨ P

/-- The step that brings `P` about is to be done once `id` is applied, and is owed from then on. -/
def Expected (ps : Plugins) (ws : List Work) (id : PluginId) (s : Step) (P : Prop) : Prop :=
  Waits ps id s ∨ (id ∈ ps.applied ∧ Owed ws s P)

theorem Owed.mono (h : Owed ws s P) (hsub : ws ⊆ vs) (hi : P → Q) : Owed vs s Q := h.imp (·.mono hsub) hi

theorem Expected.mono (h : Expected ps ws id s P) (hsub : ws ⊆ vs) (hi : P → Q) : Expected ps vs id s Q :=
  h.imp (fun h => h) fun ⟨hid, h⟩ => ⟨hid, h.mono hsub hi⟩

theorem Owed.turn (h : Owed ws s P) (ht : Turn ps ws happening qs vs) (hok : failures happening = [])
    (hdone : First ws s → Q) (hkept : P → Q) : Owed vs s Q := by
  rcases h with h | h
  · exact (h.turn ht hok).imp id hdone
  · exact .inr (hkept h)

theorem Expected.turn (h : Expected ps ws id s P) (ht : Turn ps ws happening qs vs) (hok : failures happening = [])
    (hreleases : ∀ id ∈ releases ws, id ∈ ps.applied) (hdone : id ∈ ps.applied → First ws s → Q)
    (hkept : id ∈ ps.applied → P → Q) : Expected qs vs id s Q := by
  rcases h with h | ⟨hid, h⟩
  · rcases h.turn ht with h | ⟨hid, h⟩
    · exact .inl h
    · exact .inr ⟨ht.mem_applied (hreleases id hid), .inl h⟩
  · exact .inr ⟨ht.mem_applied hid, h.turn ht hok (hdone hid) (hkept hid)⟩

/-- The handler of a plugin is due as soon as it is registered. -/
theorem Expected.of_withPlugin {reported : Bool} {body : List Step} (hfirst : First ws (.withPlugin id reported body))
    (ht : Turn ps ws happening qs vs) (hs : s ∈ body) : Expected qs vs id s P := by
  obtain ⟨outer, rest, rfl⟩ := hfirst
  cases ht with
  | queued =>
    refine .inl ⟨ps.handler reported body, ?_, hs⟩
    show ps.handler reported body ∈ (ps.enqueue id _).waitingFor id
    rw [Plugins.waitingFor_enqueue, if_pos rfl]
    exact List.mem_append_right _ (List.mem_cons_self ..)
  | immediate hid => exact .inr ⟨hid, .inl (.inr ⟨_, List.mem_cons_self .., hs⟩)⟩

/-- The body of a plugin lies ahead as soon as it counts as applied. -/
theorem Ahead.of_applied (ht : Turn ps ws happening qs vs) (hold : id ∉ ps.applied) (hnew : id ∈ qs.applied) :
    ∃ reported body, First ws (.apply id reported body) ∧ ∃ more, vs = workOf reported body ++ more := by
  cases ht with
  | @applied reported inner other body rest _ =>
    have he : id = other := by simpa [Plugins.markApplied, hold] using hnew
    subst he
    exact ⟨inner, body, ⟨reported, rest, rfl⟩, _, rfl⟩
  | _ => exact absurd hnew hold

/-- If a step stands in whatever body a plugin is applied with, what it brings about is owed as soon as the plugin counts
    as applied. -/
theorem Owed.of_applied (hbody : ∀ reported body, First ws (.apply id reported body) → s ∈ body)
    (h : id ∈ ps.applied → Owed ws s P) (ht : Turn ps ws happening qs vs) (hok : failures happening = [])
    (hdone : First ws s → Q) (hkept : P → Q) (hid : id ∈ qs.applied) : Owed vs s Q := by
  by_cases hold : id ∈ ps.applied
  · exact (h hold).turn ht hok hdone hkept
  · obtain ⟨reported, body, hfirst, more, rfl⟩ := Ahead.of_applied ht hold hid
    exact .inl (.of_mem (hbody reported body hfirst) (List.subset_append_left ..))

theorem Ahead.not_nil : ¬ Ahead [] s := by
  rintro (⟨_, hs⟩ | ⟨_, hs, _⟩) <;> cases hs

/-- When the handlers of a plugin have been taken, what was due for it has come about, or lies ahead. -/
theorem Expected.owed {log : List Happening} (h : Expected ps ws id s P) (ho : InOrder log ps ws) (hid : id ∈ ps.applied)
    (hreleases : id ∉ releases ws) : Owed ws s P := by
  rcases h with ⟨x, hx, -⟩ | ⟨-, h⟩
  · rw [(ho.taken id hid hreleases).1] at hx
    cases hx
  · exact h

/-- When all work is done and no handler waits for an applied plugin, what was due has come about. -/
theorem Expected.met {log : List Happening} (h : Expected ps [] id s P) (ho : InOrder log ps []) (hid : id ∈ ps.applied) : P :=
  (h.owed ho hid (by simp [releases])).resolve_left Ahead.not_nil

end

end BuildGraph

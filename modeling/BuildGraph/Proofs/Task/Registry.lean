/-
  BuildGraph.Proofs.Task.Registry: the registry of tasks as a map and as a graph.

  - `Tasks.Step`: how the registry can change: a task is registered or edited, or a dependency declared.
  - `Tasks.Sound`: every name is registered once, and dependencies lead between registered tasks.
    So each task is found under its name, and the graph of the tasks is well formed.
-/

import Mathlib.Data.List.Infix
import BuildGraph.Proofs.Graph.TopologicalSort
import BuildGraph.Proofs.Named
import BuildGraph.Task.Registry

namespace BuildGraph.Tasks

variable {r : Tasks} {name : String} {t : Task}

/-! ## Finding a task -/

theorem name_of_find? (h : r.find? name = some t) : t.name = name := Named.name_of_find? h

theorem mem_of_find? (h : r.find? name = some t) : t ∈ r.entries := List.mem_of_find?_eq_some h

theorem contains_iff : r.contains name = true ↔ name ∈ r.names := by simp [contains, names]

theorem exists_find?_iff : (∃ t, r.find? name = some t) ↔ name ∈ r.names := Named.exists_find?_iff

theorem find?_eq_none_iff : r.find? name = none ↔ name ∉ r.names := Named.find?_eq_none_iff

/-- Where every name is registered once, there is no other task of the name. -/
theorem eq_of_find? (hn : r.names.Nodup) (ht : r.find? name = some t) {u : Task} (hu : u ∈ r.entries)
    (hname : u.name = name) : u = t :=
  List.inj_on_of_nodup_map hn hu (mem_of_find? ht) (hname.trans (name_of_find? ht).symm)

theorem get_of_find? (h : r.find? name = some t) : r.get name = .ok t := by rw [get, h]

theorem get_eq_ok (h : r.get name = .ok t) : r.find? name = some t := by
  unfold get at h
  split at h
  · rename_i hf
    cases h
    exact hf
  · cases h

theorem get_of_not_mem (h : name ∉ r.names) : r.get name = .error (.taskNotFound name) := by
  rw [get, find?_eq_none_iff.mpr h]

theorem isRealized_iff : r.isRealized name = .ok true ↔ ∃ t, r.find? name = some t ∧ t.realized = true := by
  unfold isRealized get
  cases r.find? name with
  | none => simp [Except.map]
  | some t => simp [Except.map]

/-- A handle is given of a task that has a body of its type. -/
theorem named_eq_ok_iff {handle : TaskHandle} :
    r.named handle.kind handle.name = .ok handle ↔ ∃ t, r.find? handle.name = some t ∧ t.body.kind = handle.kind := by
  unfold named get
  cases r.find? handle.name with
  | none => simp
  | some t =>
    by_cases hk : t.body.kind = handle.kind <;> simp [hk]

/-! ## Changing the registry -/

theorem names_update {f : Task → Task} (hf : ∀ t, (f t).name = t.name) : (r.update name f).names = r.names :=
  Named.map_change hf

theorem find?_update {f : Task → Task} (hf : ∀ t, (f t).name = t.name) (other : String) :
    (r.update name f).find? other = if other = name then (r.find? other).map f else r.find? other :=
  Named.find?_change hf other

theorem mem_entries_update {f : Task → Task} (h : t ∈ (r.update name f).entries) :
    t ∈ r.entries ∨ ∃ u ∈ r.entries, u.name = name ∧ t = f u := Named.mem_change h

theorem update_update {f g : Task → Task} (hf : ∀ t, (f t).name = t.name) :
    (r.update name f).update name g = r.update name (g ∘ f) := by
  simp only [Tasks.update, List.map_map]
  congr 1
  refine List.map_congr_left ?_
  intro u _
  by_cases hu : u.name = name <;> simp [hu, hf]

theorem register_eq_ok {body : TaskBody} {cs : List Configurator} {r' : Tasks} (h : r.register name body cs = .ok r') :
    name ∉ r.names ∧ r' = { r with entries := r.entries ++ [{ name := name, body := body, pending := cs }] } := by
  unfold register at h
  split at h
  · cases h
  · rename_i hc
    simp only [Except.ok.injEq] at h
    exact ⟨fun hm => hc (contains_iff.mpr hm), h.symm⟩

theorem register_error {body : TaskBody} {cs : List Configurator} {e : ConfigError}
    (h : r.register name body cs = .error e) : name ∈ r.names ∧ e = .duplicateTaskName name := by
  unfold register at h
  split at h
  · rename_i hc
    cases h
    exact ⟨contains_iff.mp hc, rfl⟩
  · cases h

/-- A registered task is found under its name, as it was registered; all others are found as before. -/
theorem find?_register {body : TaskBody} {cs : List Configurator} {r' : Tasks} (h : r.register name body cs = .ok r')
    (other : String) :
    r'.find? other = if other = name then some { name := name, body := body, pending := cs } else r.find? other := by
  obtain ⟨hnew, rfl⟩ := register_eq_ok h
  exact Named.find?_concat hnew other

theorem find?_register_self {body : TaskBody} {cs : List Configurator} {r' : Tasks}
    (h : r.register name body cs = .ok r') : r'.find? name = some { name := name, body := body, pending := cs } := by
  rw [find?_register h, if_pos rfl]

theorem find?_of_register_of_ne {other : String} {body : TaskBody} {cs : List Configurator} {r' : Tasks}
    (h : r.register name body cs = .ok r') (hne : other ≠ name) : r'.find? other = r.find? other := by
  rw [find?_register h, if_neg hne]

/-- Registering a task hides no other. -/
theorem find?_of_register {other : String} {body : TaskBody} {cs : List Configurator} {r' : Tasks}
    (h : r.register other body cs = .ok r') (ht : r.find? name = some t) : r'.find? name = some t := by
  have hne : name ≠ other := fun he => (register_eq_ok h).1 (he ▸ exists_find?_iff.mp ⟨t, ht⟩)
  rw [find?_of_register_of_ne h hne, ht]

theorem names_of_register {body : TaskBody} {cs : List Configurator} {r' : Tasks}
    (h : r.register name body cs = .ok r') : r'.names = r.names ++ [name] := by
  obtain ⟨-, rfl⟩ := register_eq_ok h
  simp [names]

theorem edges_of_register {body : TaskBody} {cs : List Configurator} {r' : Tasks}
    (h : r.register name body cs = .ok r') : r'.edges = r.edges := by
  obtain ⟨-, rfl⟩ := register_eq_ok h
  rfl

/-- How the registry can change. -/
inductive Step (r : Tasks) : Tasks → Prop
  | register {r' : Tasks} {name : String} {body : TaskBody} {cs : List Configurator} :
    r.register name body cs = .ok r' → Step r r'
  /-- A task keeps its name, and stays realized if it is. -/
  | edit {f : Task → Task} (name : String) : (∀ t, (f t).name = t.name) →
    (∀ t, t.realized = true → (f t).realized = true) → Step r (r.update name f)
  | dependsOn {dependent dependency : String} : dependent ∈ r.names → dependency ∈ r.names →
    Step r (r.dependsOn dependent dependency)

/-! ## What stays -/

namespace Step

variable {r' : Tasks}

/-- New tasks come after those that are registered. -/
theorem names (h : r.Step r') : r.names <+: r'.names := by
  cases h with
  | register hr =>
    rw [names_of_register hr]
    exact List.prefix_append ..
  | edit other hf =>
    rw [names_update hf]
  | dependsOn => exact List.prefix_rfl

/-- No step takes a dependency away. -/
theorem edges (h : r.Step r') : r.edges <+: r'.edges := by
  cases h with
  | register hr =>
    rw [edges_of_register hr]
  | edit => exact List.prefix_rfl
  | dependsOn => exact Digraph.prefix_connect ..

/-- A realized task stays realized. -/
theorem isRealized (h : r.Step r') (hn : r.isRealized name = .ok true) : r'.isRealized name = .ok true := by
  obtain ⟨t, ht, hr⟩ := isRealized_iff.mp hn
  cases h with
  | register hs => exact isRealized_iff.mpr ⟨t, find?_of_register hs ht, hr⟩
  | edit other hf hkept =>
    rw [isRealized_iff, find?_update hf, ht]
    split
    · exact ⟨_, rfl, hkept t hr⟩
    · exact ⟨t, rfl, hr⟩
  | dependsOn => exact hn

end Step

/-! ## The graph of the tasks -/

/-- Every name is registered once, and dependencies lead between registered tasks. -/
structure Sound (r : Tasks) : Prop where
  nodup : r.names.Nodup
  source : ∀ a b, (a, b) ∈ r.edges → a ∈ r.names
  target : ∀ a b, (a, b) ∈ r.edges → b ∈ r.names

namespace Sound

theorem wellFormed (h : r.Sound) : r.graph.WellFormed := ⟨h.nodup, h.source, h.target⟩

theorem empty : Sound {} := ⟨List.nodup_nil, by simp, by simp⟩

theorem of_names_edges {r' : Tasks} (h : r.Sound) (hn : r'.names = r.names) (he : r'.edges = r.edges) : r'.Sound :=
  ⟨hn ▸ h.nodup, by rw [hn, he]; exact h.source, by rw [hn, he]; exact h.target⟩

theorem register {body : TaskBody} {cs : List Configurator} {r' : Tasks} (h : r.Sound)
    (hr : r.register name body cs = .ok r') : r'.Sound := by
  have hnames := names_of_register hr
  have hedges := edges_of_register hr
  obtain ⟨hnew, -⟩ := register_eq_ok hr
  refine ⟨?_, ?_, ?_⟩
  · rw [hnames, ← List.concat_eq_append]
    exact List.Nodup.concat hnew h.nodup
  · intro a b hab
    rw [hnames]
    exact List.mem_append_left _ (h.source a b (hedges ▸ hab))
  · intro a b hab
    rw [hnames]
    exact List.mem_append_left _ (h.target a b (hedges ▸ hab))

theorem dependsOn {dependent dependency : String} (h : r.Sound) (hd : dependent ∈ r.names)
    (hy : dependency ∈ r.names) : (r.dependsOn dependent dependency).Sound := by
  refine ⟨h.nodup, fun a b hab => ?_, fun a b hab => ?_⟩
  all_goals
    rcases Digraph.mem_connect.mp hab with hab | hab
  · exact h.source a b hab
  · cases hab
    exact hy
  · exact h.target a b hab
  · cases hab
    exact hd

theorem step {r' : Tasks} (h : r.Sound) (hs : r.Step r') : r'.Sound := by
  cases hs with
  | register hr => exact h.register hr
  | edit name hf => exact h.of_names_edges (names_update hf) rfl
  | dependsOn hd hy => exact h.dependsOn hd hy

end Sound

end BuildGraph.Tasks

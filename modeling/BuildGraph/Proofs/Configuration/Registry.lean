/-
  BuildGraph.Proofs.Configuration.Registry: the registry of configurations as a map and as a graph.

  - `Configurations.Sound`: every name is created once, extensions lead between configurations that
    are there, none is recorded twice, and nothing extends itself, directly or not.
  - `Configurations.extend_eq_ok_iff` / `extend_eq_cyclic_iff`: an extension is refused exactly if
    it would close a cycle.
-/

import Mathlib.Data.List.Infix
import BuildGraph.Configuration.Registry
import BuildGraph.Proofs.Graph.Walk
import BuildGraph.Proofs.Named

namespace BuildGraph.Configurations

variable {r s : Configurations} {name child parent : String} {c : Configuration}

/-! ## Finding a configuration -/

theorem name_of_find? (h : r.find? name = some c) : c.name = name := Named.name_of_find? h

theorem mem_of_find? (h : r.find? name = some c) : c ∈ r.entries := List.mem_of_find?_eq_some h

theorem get_eq_ok (h : r.get name = .ok c) : r.find? name = some c := by
  unfold get at h
  split at h
  · rename_i hf
    cases h
    exact hf
  · cases h

theorem name_of_get (h : r.get name = .ok c) : c.name = name := name_of_find? (get_eq_ok h)

theorem extendsOf_eq_ok {parents : List String} (h : r.extendsOf name = .ok parents) :
    parents = r.graph.successors name := by
  unfold extendsOf at h
  split at h
  · cases h
    rfl
  · cases h

theorem contains_iff : r.contains name = true ↔ name ∈ r.names := by simp [contains, names]

theorem exists_find?_iff : (∃ c, r.find? name = some c) ↔ name ∈ r.names := Named.exists_find?_iff

theorem find?_eq_none_iff : r.find? name = none ↔ name ∉ r.names := Named.find?_eq_none_iff

theorem get_of_find? (h : r.find? name = some c) : r.get name = .ok c := by rw [get, h]

theorem get_of_not_mem (h : name ∉ r.names) : r.get name = .error (.configurationNotFound name) := by
  rw [get, find?_eq_none_iff.mpr h]

theorem extendsOf_of_mem (h : name ∈ r.names) : r.extendsOf name = .ok (r.graph.successors name) :=
  if_pos (contains_iff.mpr h)

/-! ## Changing the registry -/

theorem names_updateAll {f : Configuration → Configuration} (hf : ∀ c, (f c).name = c.name) :
    (r.updateAll name f).names = r.names := Named.map_change hf

theorem declare_eq_ok (h : r.declare name = .ok s) :
    name ∉ r.names ∧ s = { r with entries := r.entries ++ [{ name := name }] } := by
  unfold declare at h
  split at h
  · cases h
  · rename_i hc
    cases h
    exact ⟨fun hm => hc (contains_iff.mpr hm), rfl⟩

/-- A declared configuration is found under its name, with nothing set; all others are found as before. -/
theorem find?_declare (h : r.declare name = .ok s) (other : String) :
    s.find? other = if other = name then some { name := name } else r.find? other := by
  obtain ⟨hnew, rfl⟩ := declare_eq_ok h
  exact Named.find?_concat hnew other

theorem find?_of_declare {new : String} (h : r.declare new = .ok s) (hc : r.find? name = some c) : s.find? name = some c := by
  have hne : name ≠ new := fun he => (declare_eq_ok h).1 (he ▸ exists_find?_iff.mp ⟨c, hc⟩)
  rw [find?_declare h, if_neg hne, hc]

theorem update_eq_ok {f : Configuration → Configuration} (h : r.update name f = .ok s) : s = r.updateAll name f := by
  unfold update at h
  split at h <;> cases h
  rfl

theorem mem_of_update {f : Configuration → Configuration} (h : r.update name f = .ok s) : name ∈ r.names := by
  unfold update at h
  split at h
  · rename_i hc
    exact contains_iff.mp hc
  · cases h

theorem update_error {f : Configuration → Configuration} {e : ConfigError} (h : r.update name f = .error e) :
    name ∉ r.names ∧ e = .configurationNotFound name := by
  unfold update at h
  split at h
  · cases h
  · rename_i hc
    cases h
    exact ⟨fun hm => hc (contains_iff.mpr hm), rfl⟩

theorem find?_updateAll {f : Configuration → Configuration} (hf : ∀ c, (f c).name = c.name) (other : String) :
    (r.updateAll name f).find? other = if other = name then (r.find? other).map f else r.find? other :=
  Named.find?_change hf other

/-! ## Extending -/

theorem extend_of_child_missing (hc : child ∉ r.names) : r.extend child parent = .error (.configurationNotFound child) := by
  have : r.contains child = false := Bool.eq_false_iff.mpr fun h => hc (contains_iff.mp h)
  rw [extend, this]
  rfl

theorem extend_of_parent_missing (hc : child ∈ r.names) (hp : parent ∉ r.names) :
    r.extend child parent = .error (.configurationNotFound parent) := by
  have : r.contains parent = false := Bool.eq_false_iff.mpr fun h => hp (contains_iff.mp h)
  rw [extend, contains_iff.mpr hc, this]
  rfl

theorem extend_of_mem (hc : child ∈ r.names) (hp : parent ∈ r.names) :
    r.extend child parent =
      if r.graph.connects parent child then .error (.cyclicExtension child parent)
      else .ok { r with extensions := Digraph.connect r.extensions child parent } := by
  rw [extend, contains_iff.mpr hc, contains_iff.mpr hp]
  rfl

/-- An extension is refused as cyclic if it leads from a configuration to itself, or to one that extends it. -/
theorem extend_eq_cyclic_iff (hc : child ∈ r.names) (hp : parent ∈ r.names) :
    r.extend child parent = .error (.cyclicExtension child parent) ↔
      child = parent ∨ r.graph.Reaches parent child := by
  rw [extend_of_mem hc hp, eq_comm (a := child), ← Digraph.connects_iff]
  split <;> rename_i h <;> simp [h]

/-- It is accepted otherwise. -/
theorem extend_eq_ok_iff (hc : child ∈ r.names) (hp : parent ∈ r.names) :
    (∃ s, r.extend child parent = .ok s) ↔ ¬ (child = parent ∨ r.graph.Reaches parent child) := by
  rw [extend_of_mem hc hp, eq_comm (a := child), ← Digraph.connects_iff]
  split <;> rename_i h <;> simp [h]

theorem extend_eq_ok (h : r.extend child parent = .ok s) :
    child ∈ r.names ∧ parent ∈ r.names ∧ child ≠ parent ∧ ¬ r.graph.Reaches parent child ∧
      s = { r with extensions := Digraph.connect r.extensions child parent } := by
  by_cases hc : child ∈ r.names
  · by_cases hp : parent ∈ r.names
    · have hn := (extend_eq_ok_iff hc hp).mp ⟨s, h⟩
      rw [extend_of_mem hc hp] at h
      split at h
      · cases h
      · cases h
        exact ⟨hc, hp, fun he => hn (.inl he), fun hr => hn (.inr hr), rfl⟩
    · rw [extend_of_parent_missing hc hp] at h
      cases h
  · rw [extend_of_child_missing hc] at h
    cases h

/-- An extension is refused if one of the two is missing, or as cyclic. -/
theorem extend_error {e : ConfigError} (h : r.extend child parent = .error e) :
    (child ∉ r.names ∧ e = .configurationNotFound child) ∨ (parent ∉ r.names ∧ e = .configurationNotFound parent) ∨
      e = .cyclicExtension child parent := by
  by_cases hc : child ∈ r.names
  · by_cases hp : parent ∈ r.names
    · rw [extend_of_mem hc hp] at h
      split at h <;> cases h
      exact .inr (.inr rfl)
    · rw [extend_of_parent_missing hc hp] at h
      cases h
      exact .inr (.inl ⟨hp, rfl⟩)
  · rw [extend_of_child_missing hc] at h
    cases h
    exact .inl ⟨hc, rfl⟩

/-! ## What a configuration stands for -/

theorem mem_declaredOn {d : Dependency} : d ∈ r.declaredOn name ↔ ∃ c, r.find? name = some c ∧ d ∈ c.dependencies := by
  unfold declaredOn
  cases r.find? name <;> simp

theorem declaredOn_of_find? (h : r.find? name = some c) : r.declaredOn name = c.dependencies := by rw [declaredOn, h]

/-- A change that only adds to what is declared on a configuration only adds to what is declared on any. -/
theorem prefix_declaredOn_updateAll {f : Configuration → Configuration} (other name : String)
    (hname : ∀ c, (f c).name = c.name) (hdeps : ∀ c, c.dependencies <+: (f c).dependencies) :
    r.declaredOn name <+: (r.updateAll other f).declaredOn name := by
  cases hc : r.find? name with
  | none =>
    rw [declaredOn, hc]
    exact List.nil_prefix
  | some c =>
    rw [declaredOn_of_find? hc]
    have hfind : (r.updateAll other f).find? name = if name = other then (r.find? name).map f else r.find? name :=
      find?_updateAll hname name
    rw [hc] at hfind
    split at hfind
    · rw [declaredOn_of_find? hfind]
      exact hdeps c
    · rw [declaredOn_of_find? hfind]

theorem dependencyClosure_of_mem (h : name ∈ r.names) :
    r.dependencyClosure name = .ok (Distinct.ofList ((r.graph.preorder name).flatMap r.declaredOn)) := by
  rw [dependencyClosure, hierarchy, if_pos (contains_iff.mpr h)]
  rfl

theorem dependencyClosure_of_not_mem (h : name ∉ r.names) :
    r.dependencyClosure name = .error (.configurationNotFound name) := by
  rw [dependencyClosure, hierarchy, if_neg fun hc => h (contains_iff.mp hc)]
  rfl

theorem mem_of_dependencyClosure {deps : List Dependency} (h : r.dependencyClosure name = .ok deps) : name ∈ r.names := by
  by_cases hn : name ∈ r.names
  · exact hn
  · rw [dependencyClosure_of_not_mem hn] at h
    cases h

/-! ## The graph of the configurations -/

/-- What holds of a registry throughout. -/
structure Sound (r : Configurations) : Prop where
  nodup : r.names.Nodup
  source : ∀ a b, (a, b) ∈ r.extensions → a ∈ r.names
  target : ∀ a b, (a, b) ∈ r.extensions → b ∈ r.names
  once : r.extensions.Nodup
  acyclic : r.graph.Acyclic

namespace Sound

theorem empty : Sound {} :=
  ⟨List.nodup_nil, by simp, by simp, List.nodup_nil, .of_rank (fun _ => 0) (by simp [graph])⟩

theorem loopless (h : r.Sound) (a : String) : (a, a) ∉ r.extensions := fun he => h.acyclic a (.edge he)

theorem of_names_extensions (h : r.Sound) (hn : s.names = r.names) (he : s.extensions = r.extensions) : s.Sound := by
  refine ⟨hn ▸ h.nodup, by rw [hn, he]; exact h.source, by rw [hn, he]; exact h.target, he ▸ h.once, ?_⟩
  refine h.acyclic.of_subset ?_
  intro e hm
  show e ∈ r.extensions
  rw [← he]
  exact hm

theorem declare (h : r.Sound) (hs : r.declare name = .ok s) : s.Sound := by
  obtain ⟨hnew, rfl⟩ := declare_eq_ok hs
  have hnames : ({ r with entries := r.entries ++ [{ name := name }] } : Configurations).names = r.names ++ [name] := by
    simp [names]
  refine ⟨?_, ?_, ?_, h.once, h.acyclic.of_subset fun _ he => he⟩
  · rw [hnames, ← List.concat_eq_append]
    exact List.Nodup.concat hnew h.nodup
  · intro a b hab
    rw [hnames]
    exact List.mem_append_left _ (h.source a b hab)
  · intro a b hab
    rw [hnames]
    exact List.mem_append_left _ (h.target a b hab)

theorem extend (h : r.Sound) (hs : r.extend child parent = .ok s) : s.Sound := by
  obtain ⟨hc, hp, hne, hback, rfl⟩ := extend_eq_ok hs
  refine ⟨h.nodup, ?_, ?_, ?_, h.acyclic.connect hne hback⟩
  · intro a b hab
    rcases Digraph.mem_connect.mp hab with hab | hab
    · exact h.source a b hab
    · cases hab
      exact hc
  · intro a b hab
    rcases Digraph.mem_connect.mp hab with hab | hab
    · exact h.target a b hab
    · cases hab
      exact hp
  · show (Digraph.connect r.extensions child parent).Nodup
    unfold Digraph.connect
    split
    · exact h.once
    · rename_i hnew
      rw [← List.concat_eq_append]
      exact List.Nodup.concat hnew h.once

end Sound

end BuildGraph.Configurations

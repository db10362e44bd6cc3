/-
  BuildGraph.Proofs.SourceSet.Registry: the registry of source sets as a map.

  - `SourceSets.Step`: how the registry can change: a source set is laid out, registered, or edited.
  - `SourceSets.Sound`: every name is registered once, for a source set that is called so and was
    laid out before.
  - `SourceSet.Widens`: the classpaths of a source set keep what they have, up to equality.
-/

import BuildGraph.Proofs.Named
import BuildGraph.SourceSet.Registry

namespace BuildGraph

/-! ## Classpaths -/

/-- The classpaths of `t` have all that those of `s` have. -/
def SourceSet.Widens (s t : SourceSet) : Prop :=
  ∀ which e, (s.classpath which).contains e = true → (t.classpath which).contains e = true

namespace FileCollection

variable {c d : FileCollection} {e : FileElement}

theorem contains_of (e : FileElement) : (FileCollection.of e).contains e = true := by
  show [e].contains e = true
  rw [List.contains_cons, BEq.rfl, Bool.true_or]

theorem contains_add (h : c.contains e = true) (new : FileElement) : (c.add new).contains e = true := by
  show (Distinct.add c.elements new).contains e = true
  rw [Distinct.contains_add, show c.elements.contains e = true from h, Bool.true_or]

theorem contains_add_self (c : FileCollection) (e : FileElement) : (c.add e).contains e = true := by
  show (Distinct.add c.elements e).contains e = true
  rw [Distinct.contains_add, BEq.rfl, Bool.or_true]

theorem contains_plus_left (h : c.contains e = true) (d : FileCollection) : (c.plus d).contains e = true := by
  show (Distinct.addAll c.elements d.elements).contains e = true
  rw [Distinct.contains_addAll, show c.elements.contains e = true from h, Bool.true_or]

theorem contains_plus_right (h : d.contains e = true) (c : FileCollection) : (c.plus d).contains e = true := by
  show (Distinct.addAll c.elements d.elements).contains e = true
  rw [Distinct.contains_addAll, show d.elements.contains e = true from h, Bool.or_true]

end FileCollection

namespace SourceSet

variable {s t : SourceSet}

theorem Widens.refl (s : SourceSet) : s.Widens s := fun _ _ h => h

theorem Widens.trans {u : SourceSet} (h : s.Widens t) (h' : t.Widens u) : s.Widens u :=
  fun which e he => h' which e (h which e he)

theorem Widens.of_eq (hcompile : t.compileClasspath = s.compileClasspath)
    (hruntime : t.runtimeClasspath = s.runtimeClasspath) : s.Widens t := by
  intro which e he
  cases which with
  | compile => exact (congrArg (·.contains e) hcompile).trans he
  | runtime => exact (congrArg (·.contains e) hruntime).trans he

theorem widens_addRuntime (s : SourceSet) (e : FileElement) :
    s.Widens { s with runtimeClasspath := s.runtimeClasspath.add e } := by
  intro which x hx
  cases which with
  | compile => exact hx
  | runtime => exact FileCollection.contains_add hx e

theorem name_updateClasspath (f : FileCollection → FileCollection) (which : ClasspathKind) (s : SourceSet) :
    (s.updateClasspath f which).name = s.name := by
  cases which <;> rfl

theorem widens_updateClasspath (s : SourceSet) {f : FileCollection → FileCollection}
    (hf : ∀ c e, c.contains e = true → (f c).contains e = true) (which : ClasspathKind) :
    s.Widens (s.updateClasspath f which) := by
  intro other e he
  cases which with
  | compile =>
    cases other with
    | compile => exact hf _ e he
    | runtime => exact he
  | runtime =>
    cases other with
    | compile => exact he
    | runtime => exact hf _ e he

end SourceSet

namespace SourceSets

variable {r r' : SourceSets} {name : String} {s : SourceSet} {u : UnitId}

/-! ## Finding a source set -/

theorem lookup_isSome_iff {registered : List (String × UnitId)} :
    (registered.lookup name).isSome = true ↔ name ∈ registered.map (·.1) := by
  induction registered with
  | nil => simp
  | cons e rest ih =>
    obtain ⟨other, u⟩ := e
    rw [List.lookup_cons, List.map_cons, List.mem_cons]
    by_cases h : name = other
    · simp [h]
    · have : (name == other) = false := by simpa using h
      simp [this, h, ih]

theorem mem_of_lookup {registered : List (String × UnitId)} (h : registered.lookup name = some u) :
    (name, u) ∈ registered := by
  induction registered with
  | nil => cases h
  | cons e rest ih =>
    obtain ⟨other, v⟩ := e
    rw [List.lookup_cons] at h
    by_cases hn : name = other
    · subst hn
      simp only [beq_self_eq_true, Option.some.injEq] at h
      subst h
      exact List.mem_cons_self ..
    · have : (name == other) = false := by simpa using hn
      rw [this] at h
      exact List.mem_cons_of_mem _ (ih h)

theorem lookup_eq_none (h : name ∉ r.names) : r.registered.lookup name = none :=
  Option.not_isSome_iff_eq_none.mp fun hs => h (lookup_isSome_iff.mp hs)

theorem contains_iff : r.contains name = true ↔ name ∈ r.names := lookup_isSome_iff

theorem not_mem_of_contains (h : ¬ r.contains name = true) : name ∉ r.names := fun hm => h (contains_iff.mpr hm)

theorem get_of_find? (h : r.find? name = some s) : r.get name = .ok s := by rw [get, h]

theorem get_of_not_mem (h : name ∉ r.names) : r.get name = .error (.sourceSetNotFound name) := by
  rw [get, find?, unitOf?, lookup_eq_none h]
  rfl

theorem get_eq_ok (h : r.get name = .ok s) : r.find? name = some s := by
  unfold get at h
  split at h
  · rename_i hf
    cases h
    exact hf
  · cases h

theorem find?_of_lookup (hu : r.registered.lookup name = some u) : r.find? name = r.units[u]? := by
  rw [find?, unitOf?, hu]
  rfl

theorem exists_lookup_of_find? (h : r.find? name = some s) : ∃ u, r.registered.lookup name = some u ∧ r.units[u]? = some s := by
  unfold find? unitOf? at h
  cases hu : r.registered.lookup name with
  | none =>
    rw [hu] at h
    cases h
  | some u =>
    rw [hu] at h
    exact ⟨u, rfl, h⟩

/-! ## Changing the registry -/

theorem update_eq_ok {f : SourceSet → SourceSet} (h : r.update name f = .ok r') :
    ∃ u, r.registered.lookup name = some u ∧ r' = r.updateUnit u f := by
  unfold update at h
  split at h
  · rename_i u hu
    cases h
    exact ⟨u, hu, rfl⟩
  · cases h

theorem exists_update (hs : r.find? name = some s) (f : SourceSet → SourceSet) : ∃ r', r.update name f = .ok r' := by
  obtain ⟨u, hu, -⟩ := exists_lookup_of_find? hs
  exact ⟨r.updateUnit u f, by rw [update, unitOf?, hu]⟩

theorem find?_of_update {f : SourceSet → SourceSet} (hs : r.find? name = some s) (h : r.update name f = .ok r') :
    r'.find? name = some (f s) := by
  obtain ⟨u, hu, rfl⟩ := update_eq_ok h
  have hunit : r.units[u]? = some s := (find?_of_lookup hu).symm.trans hs
  rw [find?_of_lookup (show (r.updateUnit u f).registered.lookup name = some u from hu)]
  show (r.units.modify u f)[u]? = some (f s)
  rw [List.getElem?_modify, hunit]
  simp

theorem insert_eq_ok (h : r.insert s = .ok r') : s.name ∉ r.names ∧ r' = (r.layOut s).register s.name r.nextUnit := by
  unfold insert at h
  split at h
  · cases h
  · rename_i hc
    cases h
    exact ⟨not_mem_of_contains hc, rfl⟩

/-- A source set that is laid out and registered under a new name is found by that name. -/
theorem find?_register_layOut (hnew : name ∉ r.names) (s : SourceSet) :
    ((r.layOut s).register name r.nextUnit).find? name = some s := by
  have hnone := lookup_eq_none hnew
  have hlookup : ((r.layOut s).register name r.nextUnit).registered.lookup name = some r.nextUnit := by
    show (r.registered ++ [(name, r.nextUnit)]).lookup name = some r.nextUnit
    rw [List.lookup_append, hnone, Option.none_or, List.lookup_cons_self]
  rw [find?_of_lookup hlookup]
  exact List.getElem?_concat_length

/-- Every source set is still there, and its classpaths have all that they had. -/
def Widens (r r' : SourceSets) : Prop := ∀ name s, r.find? name = some s → ∃ t, r'.find? name = some t ∧ s.Widens t

namespace Widens

theorem refl (r : SourceSets) : r.Widens r := fun _ s h => ⟨s, h, .refl s⟩

theorem trans {r'' : SourceSets} (h : r.Widens r') (h' : r'.Widens r'') : r.Widens r'' := by
  intro name s hs
  obtain ⟨t, ht, hst⟩ := h name s hs
  obtain ⟨v, hv, htv⟩ := h' name t ht
  exact ⟨v, hv, hst.trans htv⟩

theorem layOut (r : SourceSets) (new : SourceSet) : r.Widens (r.layOut new) := by
  intro name s hs
  obtain ⟨u, hu, hs⟩ := exists_lookup_of_find? hs
  refine ⟨s, ?_, .refl s⟩
  rw [find?_of_lookup (show (r.layOut new).registered.lookup name = some u from hu)]
  show (r.units ++ [new])[u]? = some s
  rw [List.getElem?_append_left (List.getElem?_eq_some_iff.mp hs).1, hs]

theorem register (r : SourceSets) (new : String) (v : UnitId) : r.Widens (r.register new v) := by
  intro name s hs
  obtain ⟨u, hu, hs⟩ := exists_lookup_of_find? hs
  refine ⟨s, ?_, .refl s⟩
  have hlookup : (r.register new v).registered.lookup name = some u := by
    show (r.registered ++ [(new, v)]).lookup name = some u
    rw [List.lookup_append, hu]
    rfl
  rw [find?_of_lookup hlookup]
  exact hs

theorem updateUnit (r : SourceSets) (v : UnitId) {f : SourceSet → SourceSet} (hf : ∀ s : SourceSet, s.Widens (f s)) :
    r.Widens (r.updateUnit v f) := by
  intro name s hs
  obtain ⟨u, hu, hs⟩ := exists_lookup_of_find? hs
  rw [find?_of_lookup (show (r.updateUnit v f).registered.lookup name = some u from hu)]
  show ∃ t, (r.units.modify v f)[u]? = some t ∧ s.Widens t
  rw [List.getElem?_modify, hs]
  split
  · exact ⟨f s, rfl, hf s⟩
  · exact ⟨s, rfl, .refl s⟩

end Widens

/-- How the registry can change. -/
inductive Step (r : SourceSets) : SourceSets → Prop
  | layOut (s : SourceSet) : Step r (r.layOut s)
  /-- What is called `name` is registered under `name`, unless this is taken. -/
  | register {name : String} {u : UnitId} {s : SourceSet} :
    name ∉ r.names → r.units[u]? = some s → s.name = name → Step r (r.register name u)
  | edit {f : SourceSet → SourceSet} (u : UnitId) : (∀ s, (f s).name = s.name) → Step r (r.updateUnit u f)

/-- New source sets come after those that are registered. -/
theorem Step.names (h : r.Step r') : r.names <+: r'.names := by
  cases h with
  | layOut => exact List.prefix_rfl
  | register =>
    rw [names_register]
    exact List.prefix_append ..
  | edit => exact List.prefix_rfl

/-- A registered source set stays where it was laid out. -/
theorem Step.unitOf? (h : r.Step r') (hu : r.unitOf? name = some u) : r'.unitOf? name = some u := by
  cases h with
  | layOut => exact hu
  | @register other v _ _ _ _ =>
    show (r.registered ++ [(other, v)]).lookup name = some u
    rw [List.lookup_append, show r.registered.lookup name = some u from hu]
    rfl
  | edit => exact hu

/-- Every name is registered once, for a source set that is called so. -/
structure Sound (r : SourceSets) : Prop where
  nodup : r.names.Nodup
  placed : ∀ name u, (name, u) ∈ r.registered → ∃ s, r.units[u]? = some s ∧ s.name = name

namespace Sound

theorem empty : Sound {} := ⟨List.nodup_nil, by simp⟩

theorem step (h : r.Sound) (hs : r.Step r') : r'.Sound := by
  cases hs with
  | layOut s =>
    refine ⟨h.nodup, fun name u hu => ?_⟩
    obtain ⟨t, ht, hn⟩ := h.placed name u hu
    refine ⟨t, ?_, hn⟩
    show (r.units ++ [s])[u]? = some t
    rw [List.getElem?_append_left (List.getElem?_eq_some_iff.mp ht).1, ht]
  | @register name u s hnew hu hn =>
    refine ⟨?_, ?_⟩
    · rw [names_register, ← List.concat_eq_append]
      exact List.Nodup.concat hnew h.nodup
    · intro other v hv
      rcases List.mem_append.mp hv with hv | hv
      · exact h.placed other v hv
      · rw [List.mem_singleton] at hv
        cases hv
        exact ⟨s, hu, hn⟩
  | @edit f u hf =>
    refine ⟨h.nodup, fun name v hv => ?_⟩
    obtain ⟨t, ht, hn⟩ := h.placed name v hv
    show ∃ s, (r.units.modify u f)[v]? = some s ∧ s.name = name
    rw [List.getElem?_modify, ht]
    split
    · exact ⟨f t, rfl, (hf t).trans hn⟩
    · exact ⟨t, rfl, hn⟩

theorem exists_find?_of_unitOf? (h : r.Sound) (hu : r.unitOf? name = some u) : ∃ s, r.find? name = some s := by
  obtain ⟨s, hs, -⟩ := h.placed name u (mem_of_lookup hu)
  exact ⟨s, (find?_of_lookup hu).trans hs⟩

/-- Each registered name finds a source set called so. -/
theorem exists_find?_iff (h : r.Sound) : (∃ s, r.find? name = some s) ↔ name ∈ r.names := by
  constructor
  · rintro ⟨s, hs⟩
    obtain ⟨u, hu, -⟩ := exists_lookup_of_find? hs
    exact List.mem_map.mpr ⟨_, mem_of_lookup hu, rfl⟩
  · intro hn
    obtain ⟨u, hu⟩ := Option.isSome_iff_exists.mp (lookup_isSome_iff.mpr hn)
    exact h.exists_find?_of_unitOf? hu

theorem name_of_find? (h : r.Sound) (hs : r.find? name = some s) : s.name = name := by
  obtain ⟨u, hu, hs⟩ := exists_lookup_of_find? hs
  obtain ⟨t, ht, hn⟩ := h.placed name u (mem_of_lookup hu)
  cases ht.symm.trans hs
  exact hn

end Sound

end SourceSets

end BuildGraph

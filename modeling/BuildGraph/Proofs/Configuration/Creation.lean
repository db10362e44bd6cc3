/-
  BuildGraph.Proofs.Configuration.Creation: creating a configuration under a new name.

  Nothing extends a configuration that is being created (`Fresh`). So no path leads back to it, and it may extend
  whatever is there: no instruction of its set-up can fail. A configuration under a taken name is refused before
  anything is done.

  - `Sound.create_of_new`: a new configuration that is to extend what is there is created and set up to the end.
  - `create_of_mem`: a taken name is refused.
-/

import BuildGraph.Proofs.Configuration.Registry

namespace BuildGraph.Configurations

variable {r s : Configurations} {name parent : String} {setup before rest : List Setup}

/-- The configuration `name` is there, and nothing extends it. -/
structure Fresh (r : Configurations) (name : String) : Prop where
  mem : name ∈ r.names
  unextended : ∀ a, (a, name) ∉ r.extensions

/-- What the instructions have a configuration extend is there, and is not the configuration itself. -/
def Extendable (r : Configurations) (name : String) (setup : List Setup) : Prop :=
  ∀ parent, .extendsFrom parent ∈ setup → parent ∈ r.names ∧ parent ≠ name

theorem Extendable.of_new (hnew : name ∉ r.names) (h : ∀ parent, .extendsFrom parent ∈ setup → parent ∈ r.names) :
    r.Extendable name setup := fun parent hp => ⟨h parent hp, fun he => hnew (he ▸ h parent hp)⟩

theorem Extendable.of_names (h : r.Extendable name setup) (hs : r.names <+: s.names) : s.Extendable name setup :=
  fun parent hp => ⟨hs.subset (h parent hp).1, (h parent hp).2⟩

namespace Fresh

/-- A path to it would end with an extension of it. -/
theorem extend (h : r.Fresh name) (hp : parent ∈ r.names) (hne : parent ≠ name) :
    ∃ s, r.extend name parent = .ok s ∧ s.names = r.names ∧ s.Fresh name := by
  obtain ⟨s, hs⟩ : ∃ s, r.extend name parent = .ok s := by
    rw [extend_eq_ok_iff h.mem hp]
    rintro (rfl | hback)
    · exact hne rfl
    · obtain ⟨-, a, ha⟩ := hback.ends
      exact h.unextended a ha
  refine ⟨s, hs, ?_⟩
  obtain ⟨-, -, -, -, rfl⟩ := extend_eq_ok hs
  refine ⟨rfl, h.mem, fun a ha => ?_⟩
  rcases Digraph.mem_connect.mp ha with ha | ha
  · exact h.unextended a ha
  · cases ha
    exact hne rfl

theorem updateAll {f : Configuration → Configuration} (h : r.Fresh name) (hf : ∀ c, (f c).name = c.name) :
    (r.updateAll name f).names = r.names ∧ (r.updateAll name f).Fresh name := by
  have hnames : (r.updateAll name f).names = r.names := names_updateAll hf
  exact ⟨hnames, hnames ▸ h.mem, h.unextended⟩

/-- No instruction fails, and none has anything extend the configuration. -/
theorem run (h : r.Fresh name) (i : Setup) (hi : r.Extendable name [i]) :
    ∃ s, i.run name r = .ok s ∧ s.names = r.names ∧ s.Fresh name := by
  cases i with
  | extendsFrom parent =>
    obtain ⟨hp, hne⟩ := hi parent (List.mem_singleton_self _)
    exact h.extend hp hne
  | tellName => exact ⟨r, rfl, rfl, h⟩
  | _ =>
    refine ⟨_, rfl, h.updateAll ?_⟩
    exact fun _ => rfl

theorem runSetup (h : r.Fresh name) (hsetup : r.Extendable name setup) :
    ∃ s, runSetup name setup r = (.ok (), s) ∧ s.names = r.names ∧ s.Fresh name := by
  induction setup generalizing r with
  | nil => exact ⟨r, rfl, rfl, h⟩
  | cons i setup ih =>
    have hfirst : r.Extendable name [i] := fun parent hp =>
      hsetup parent (List.mem_singleton.mp hp ▸ List.mem_cons_self ..)
    obtain ⟨s, hs, hnames, hfresh⟩ := h.run i hfirst
    have hrest : s.Extendable name setup := by
      intro parent hp
      rw [hnames]
      exact hsetup parent (List.mem_cons_of_mem _ hp)
    obtain ⟨t, ht, hnames', hfresh'⟩ := ih hfresh hrest
    refine ⟨t, ?_, hnames'.trans hnames, hfresh'⟩
    rw [Configurations.runSetup, hs]
    exact ht

end Fresh

/-! ## Creating -/

theorem declare_of_mem (h : name ∈ r.names) : r.declare name = .error (.duplicateConfigurationName name) :=
  if_pos (contains_iff.mpr h)

theorem names_of_declare (h : r.declare name = .ok s) : s.names = r.names ++ [name] := by
  obtain ⟨-, rfl⟩ := declare_eq_ok h
  simp [names]

theorem exists_declare (hnew : name ∉ r.names) : ∃ s, r.declare name = .ok s :=
  ⟨_, if_neg fun hc => hnew (contains_iff.mp hc)⟩

/-- A taken name is refused. -/
theorem create_of_mem (h : name ∈ r.names) : r.create name setup = (.error (.duplicateConfigurationName name), r) := by
  rw [create, declare_of_mem h]

namespace Sound

/-- Extensions lead between configurations that are there, so none leads to a new one. -/
theorem fresh_of_declare (h : r.Sound) (hs : r.declare name = .ok s) : s.Fresh name := by
  refine ⟨?_, fun a ha => ?_⟩
  · rw [names_of_declare hs]
    exact List.mem_append_right _ (List.mem_singleton_self _)
  · obtain ⟨hnew, rfl⟩ := declare_eq_ok hs
    exact hnew (h.target a name ha)

/-- The instructions for a configuration that was declared just now can be carried out up to any point. -/
theorem runSetup_of_declare (h : r.Sound) (hs : r.declare name = .ok s)
    (hsetup : ∀ parent, .extendsFrom parent ∈ setup → parent ∈ r.names) :
    ∃ t, runSetup name setup s = (.ok (), t) ∧ t.names = r.names ++ [name] ∧ t.Fresh name := by
  have hnames := names_of_declare hs
  have hextendable : s.Extendable name setup :=
    (Extendable.of_new (declare_eq_ok hs).1 hsetup).of_names (hnames ▸ List.prefix_append ..)
  obtain ⟨t, ht, hnames', hfresh⟩ := (h.fresh_of_declare hs).runSetup hextendable
  exact ⟨t, ht, hnames'.trans hnames, hfresh⟩

/-- So each extension among them is accepted when it is its turn. -/
theorem extend_of_declare (h : r.Sound) (hs : r.declare name = .ok s)
    (hsetup : ∀ other, .extendsFrom other ∈ before ++ .extendsFrom parent :: rest → other ∈ r.names) :
    ∃ t u, runSetup name before s = (.ok (), t) ∧ t.extend name parent = .ok u := by
  obtain ⟨t, ht, hnames, hfresh⟩ := h.runSetup_of_declare hs fun other ho => hsetup other (List.mem_append_left _ ho)
  have hparent : parent ∈ r.names := hsetup parent (List.mem_append_right _ (List.mem_cons_self ..))
  obtain ⟨u, hu, -, -⟩ := hfresh.extend (hnames ▸ List.mem_append_left _ hparent)
    fun he => (declare_eq_ok hs).1 (he ▸ hparent)
  exact ⟨t, u, ht, hu⟩

/-- A new configuration that is to extend what is there is created and set up to the end. -/
theorem create_of_new (h : r.Sound) (hnew : name ∉ r.names)
    (hsetup : ∀ parent, .extendsFrom parent ∈ setup → parent ∈ r.names) :
    ∃ s, r.create name setup = (.ok (), s) ∧ s.names = r.names ++ [name] := by
  obtain ⟨s, hs⟩ := exists_declare hnew
  obtain ⟨t, ht, hnames, -⟩ := h.runSetup_of_declare hs hsetup
  refine ⟨t, ?_, hnames⟩
  rw [create, hs]
  exact ht

end Sound

end BuildGraph.Configurations

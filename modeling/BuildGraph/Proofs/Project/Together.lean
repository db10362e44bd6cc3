/-
  BuildGraph.Proofs.Project.Together: which source sets a project can have together.

  A source set can be created if all names that come with it are free. In a project with nothing in it, any number
  of source sets can be created one after another exactly if no two of them have a name in common, which is when no
  two are capitalised alike: `foo` and `Foo` are different source sets with different configurations, but both
  would be compiled by `compileFooJava`.

  - `createSourceSets_succeed_iff`: source sets are created one after another exactly if the names of each are free,
    and no two have one in common.
  - `sourceSets_apart`: in terms of how they are capitalised.
-/

import BuildGraph.Proofs.Project.Creation

namespace BuildGraph

open Operation Outline Project SourceSetName

variable {p q : Project} {a b name : String} {names : List String} {k : Key}

/-! ## Names in common -/

/-- Source sets have no name in common exactly if they are capitalised differently. -/
theorem disjoint_sourceSetKeys_iff : (sourceSetKeys a).Disjoint (sourceSetKeys b) ↔ capital a ≠ capital b := by
  rw [← disjoint_tasks_iff]
  constructor
  · exact fun h x hx hy => h (ConfigM.task_mem_keys.mpr hx) (ConfigM.task_mem_keys.mpr hy)
  · intro htasks k hka hkb
    have hne : a ≠ b := fun he => disjoint_tasks_iff.mp htasks (he ▸ rfl)
    cases k with
    | sourceSet x => exact hne ((ConfigM.sourceSet_mem_keys.mp hka).symm.trans (ConfigM.sourceSet_mem_keys.mp hkb))
    | configuration x =>
      exact disjoint_configurations hne (ConfigM.configuration_mem_keys.mp hka) (ConfigM.configuration_mem_keys.mp hkb)
    | task x => exact htasks (ConfigM.task_mem_keys.mp hka) (ConfigM.task_mem_keys.mp hkb)

namespace ConfigM

/-- Source sets can be created one after another exactly if the names of each are free, and no two have one in
    common. -/
theorem createSourceSets_succeed_iff (hs : p.Sound) :
    (∃ q, names.forM createSourceSet p = .ok ⟨⟩ q) ↔
      (∀ name ∈ names, ∀ k ∈ sourceSetKeys name, ¬ p.outline.Has k) ∧
        names.Pairwise fun a b => (sourceSetKeys a).Disjoint (sourceSetKeys b) := by
  induction names generalizing p with
  | nil => exact ⟨fun _ => ⟨by simp, .nil⟩, fun _ => ⟨p, rfl⟩⟩
  | cons name names ih =>
    rw [List.forall_mem_cons, List.pairwise_cons]
    show (∃ q, (createSourceSet name >>= fun _ => names.forM createSourceSet) p = .ok ⟨⟩ q) ↔ _
    have hfirst : (∃ q, createSourceSet name p = .ok ⟨⟩ q) ↔ ∀ k ∈ sourceSetKeys name, ¬ p.outline.Has k :=
      createSourceSet_succeeds_iff hs
    -- what the others find taken is what was there before, or came with the first
    have hafter : ∀ q, createSourceSet name p = .ok ⟨⟩ q →
        q.Sound ∧ ∀ k, q.outline.Has k ↔ p.outline.Has k ∨ k ∈ sourceSetKeys name := by
      intro q hq
      refine ⟨hs.evolves ((evolves_createSourceSet name).of_ok hq), fun k => ?_⟩
      rw [mem_sourceSetKeys_iff]
      exact (gains_createSourceSet hs hq).has_iff k
    constructor
    · rintro ⟨r, hr⟩
      obtain ⟨_, q, hq, hr⟩ := bind_ok hr
      obtain ⟨hs', hhas⟩ := hafter q hq
      obtain ⟨hfree, hpairs⟩ := (ih hs').mp ⟨r, hr⟩
      refine ⟨⟨hfirst.mp ⟨q, hq⟩, fun other ho k hk hp => ?_⟩, fun other ho k hk hk' => ?_, hpairs⟩
      · exact hfree other ho k hk ((hhas k).mpr (.inl hp))
      · exact hfree other ho k hk' ((hhas k).mpr (.inr hk))
    · rintro ⟨⟨hname, hfree⟩, hapart, hpairs⟩
      obtain ⟨q, hq⟩ := hfirst.mpr hname
      obtain ⟨hs', hhas⟩ := hafter q hq
      have hothers : ∀ other ∈ names, ∀ k ∈ sourceSetKeys other, ¬ q.outline.Has k := fun other ho k hk hk' =>
        ((hhas k).mp hk').elim (hfree other ho k hk) fun hk' => hapart other ho hk' hk
      obtain ⟨r, hr⟩ := (ih hs').mpr ⟨hothers, hpairs⟩
      exact ⟨r, (bind_of_ok hq).trans hr⟩

end ConfigM

/-- No two source sets have a configuration in common. They have no task in common if and only if they are capitalised
    differently. So source sets can be created one after another in a project with nothing in it if and only if no two
    of them are capitalised alike. -/
theorem Project.sourceSets_apart (settings : Settings) (names : List String) :
    (∀ a b, a ≠ b → (SourceSetName.configurations a ++ SourceSetName.configurations b).Nodup ∧
      ((SourceSetName.tasks a).Disjoint (SourceSetName.tasks b) ↔ capital a ≠ capital b)) ∧
    ((∃ q, names.forM ConfigM.createSourceSet (.ofSettings settings) = .ok ⟨⟩ q) ↔
      names.Pairwise fun a b => capital a ≠ capital b) := by
  refine ⟨fun a b h => ⟨?_, disjoint_tasks_iff⟩, ?_⟩
  · exact List.nodup_append'.mpr ⟨nodup_configurations a, nodup_configurations b, disjoint_configurations h⟩
  have hsound : (ofSettings settings).Sound := (reachable_ofSettings settings).sound
  have hblank : ∀ k, ¬ (ofSettings settings).outline.Has k := by
    intro k
    cases k <;> exact Bool.false_ne_true
  rw [ConfigM.createSourceSets_succeed_iff hsound]
  simp only [disjoint_sourceSetKeys_iff]
  exact ⟨And.right, fun h => ⟨fun _ _ k _ => hblank k, h⟩⟩

/-- `foo` and `Foo` have different configurations, but two tasks in common, so they cannot be created together. -/
theorem Project.sourceSets_apart_of_foo :
    (SourceSetName.configurations "foo" ++ SourceSetName.configurations "Foo").Nodup ∧
      ¬ (SourceSetName.tasks "foo").Disjoint (SourceSetName.tasks "Foo") ∧
      (∃ q, ["main", "foo"].forM ConfigM.createSourceSet (.ofSettings {}) = .ok ⟨⟩ q) ∧
      ¬ ∃ q, ["foo", "main", "Foo"].forM ConfigM.createSourceSet (.ofSettings {}) = .ok ⟨⟩ q := by
  have hsame : capital "foo" = capital "Foo" := by decide
  obtain ⟨hpair, hdifferent⟩ := sourceSets_apart {} ["main", "foo"]
  obtain ⟨-, htogether⟩ := sourceSets_apart {} ["foo", "main", "Foo"]
  obtain ⟨hnodup, htasks⟩ := hpair "foo" "Foo" (by decide)
  refine ⟨hnodup, fun h => htasks.mp h hsame, hdifferent.mpr (by decide), fun h => ?_⟩
  exact (List.pairwise_cons.mp (htogether.mp h)).1 "Foo" (by simp) hsame

end BuildGraph

/-
  BuildGraph.Proofs.Configuration.Hierarchy: a configuration and what it extends, in order.

  `Record r made` says how the registry `r` came about, step by step; `made` are the extensions that were made on the
  way, an extension made again included. What a configuration extends are the parents recorded for it, each where it
  was first made, and its hierarchy is the recursive preorder over those.

  - `Reach.exists_record` / `Record.reach`: the registries that have a record are those that can come about.
  - `Record.extendsOf`: the parents of a configuration are the distinct ones of its record, in order.
  - `Reach.hierarchy_exact`: the hierarchy lists what the recursion lists.
-/

import BuildGraph.Proofs.Configuration.Reach
import BuildGraph.Proofs.Graph.Preorder

namespace BuildGraph.Configurations

/-! ## What was extended on the way -/

/-- A registry, and the pairs of a configuration and one it was made to extend, in order. -/
inductive Record : Configurations → List (String × String) → Prop
  | empty : Record {} []
  | declare {r s : Configurations} {made : List (String × String)} {name : String} :
    Record r made → r.declare name = .ok s → Record s made
  | extend {r s : Configurations} {made : List (String × String)} {child parent : String} :
    Record r made → r.extend child parent = .ok s → Record s (made ++ [(child, parent)])
  | addDependency {r s : Configurations} {made : List (String × String)} {name : String} {d : Dependency} :
    Record r made → r.addDependency name d = .ok s → Record s made
  | edit {r : Configurations} {made : List (String × String)} (name : String) (e : Edit) :
    Record r made → Record (r.updateAll name e.apply) made

namespace Record

variable {r : Configurations} {made : List (String × String)} {name : String}

theorem reach (h : Record r made) : Reach r := by
  induction h with
  | empty => exact .empty
  | declare _ hd ih => exact ih.step (.declare hd)
  | extend _ he ih => exact ih.extend he
  | addDependency _ hd ih => exact ih.addDependency hd
  | edit name e _ ih => exact ih.edit name e

/-- Setting up a configuration makes it extend others, and makes no other extend anything. -/
theorem run (h : Record r made) (name : String) (course : Course) :
    ∃ parents : List String, Record (course.run name r).2 (made ++ parents.map (name, ·)) := by
  induction course generalizing r made with
  | finish => exact ⟨[], by simpa [Course.run] using h⟩
  | look next ih =>
    unfold Course.run
    split
    · exact ih _ h
    · exact ⟨[], by simpa using h⟩
  | edit e next ih => exact ih (h.edit name e)
  | extend parent next ih =>
    unfold Course.run
    split
    · rename_i s hs
      obtain ⟨parents, hrest⟩ := ih _ (h.extend hs)
      exact ⟨parent :: parents, by simpa using hrest⟩
    · exact ih _ h

/-- The parents of a configuration are those recorded for it, each where it was recorded first. -/
theorem successors (h : Record r made) (name : String) :
    r.graph.successors name = Distinct.ofList ((made.filter (·.1 = name)).map (·.2)) := by
  induction h with
  | empty => rfl
  | declare _ hd ih =>
    obtain ⟨-, rfl⟩ := declare_eq_ok hd
    exact ih
  | @extend r s made child parent _ he ih =>
    obtain ⟨-, -, -, -, rfl⟩ := extend_eq_ok he
    have hsuccessors : (Digraph.mk r.names (Digraph.connect r.extensions child parent)).successors name =
        if name = child then Distinct.add (r.graph.successors name) parent else r.graph.successors name :=
      Digraph.successors_connect
    rw [List.filter_append, List.map_append, Distinct.ofList, Distinct.addAll_append, ← Distinct.ofList, ← ih]
    refine hsuccessors.trans ?_
    by_cases hname : name = child
    · simp [hname]
    · simp [hname, Ne.symm hname]
  | addDependency _ hd ih =>
    rw [update_eq_ok hd]
    exact ih
  | edit other e _ ih => exact ih

theorem extendsOf (h : Record r made) (hn : name ∈ r.names) :
    r.extendsOf name = .ok (Distinct.ofList ((made.filter (·.1 = name)).map (·.2))) := by
  rw [Configurations.extendsOf, if_pos (contains_iff.mpr hn), h.successors]

end Record

namespace Reach

variable {r : Configurations} {name : String}

/-- However a registry came about, there is a record of it. -/
theorem exists_record (h : Reach r) : ∃ made, Record r made := by
  induction h with
  | empty => exact ⟨[], .empty⟩
  | @create r name course _ ih =>
    obtain ⟨made, hmade⟩ := ih
    unfold createBy
    cases hs : r.declare name with
    | error e => exact ⟨made, hmade⟩
    | ok s =>
      obtain ⟨parents, hparents⟩ := (hmade.declare hs).run name course
      exact ⟨_, hparents⟩
  | extend _ he ih => exact ih.elim fun made hmade => ⟨_, hmade.extend he⟩
  | addDependency _ hd ih => exact ih.imp fun made hmade => hmade.addDependency hd
  | edit name e _ ih => exact ih.imp fun made hmade => hmade.edit name e

/-! ## The hierarchy -/

/-- The hierarchy of a configuration is the depth-first preorder that starts with it and visits the parents of each
    configuration in the order of its extensions; so it starts with the configuration, repeats none and holds exactly
    what the configuration extends. The parents of a configuration are the distinct ones it was made to extend, in
    the order in which it was first made to. -/
theorem hierarchy_exact (h : Reach r) (hn : name ∈ r.names) :
    (∃ names, r.hierarchy name = .ok names ∧
        (∀ parentsOf, (∀ c ∈ r.names, r.extendsOf c = .ok (parentsOf c)) →
          ∀ names', Preorder parentsOf [] [name] names' ↔ names' = names) ∧
        names.head? = some name ∧ names.Nodup ∧ ∀ c, c ∈ names ↔ c = name ∨ r.graph.Reaches name c) ∧
      (∃ made, Record r made) ∧
      ∀ made, Record r made → ∀ c ∈ r.names,
        r.extendsOf c = .ok (Distinct.ofList ((made.filter (·.1 = c)).map (·.2))) := by
  refine ⟨⟨r.graph.preorder name, ?_, fun parentsOf hparents names' => ?_, r.graph.head?_preorder name,
    r.graph.nodup_preorder name, fun c => r.graph.mem_preorder⟩, h.exists_record, fun made hmade c hc => hmade.extendsOf hc⟩
  · rw [hierarchy, if_pos (contains_iff.mpr hn)]
  · -- no extension leads out of the registry
    refine Digraph.preorder_iff (P := (· ∈ r.names)) (fun a b hab _ => h.sound.target a b hab) (fun c hc => ?_) hn
    exact extendsOf_eq_ok (hparents c hc)

/-- Two that the classpath extends extend the same configuration, and the second is extended twice. -/
theorem hierarchy_exact_of_diamond :
    ∃ r, Record r [("api", "base"), ("implementation", "base"), ("classpath", "api"), ("classpath", "implementation"),
        ("classpath", "api")] ∧
      r.extendsOf "classpath" = .ok ["api", "implementation"] ∧
      r.hierarchy "classpath" = .ok ["classpath", "api", "base", "implementation"] ∧
      Preorder r.graph.successors [] ["classpath"] ["classpath", "api", "base", "implementation"] := by
  have hbase := @Record.declare _ _ _ "base" .empty rfl
  have hapi := @Record.extend _ _ _ "api" "base" (@Record.declare _ _ _ "api" hbase rfl) rfl
  have himplementation :=
    @Record.extend _ _ _ "implementation" "base" (@Record.declare _ _ _ "implementation" hapi rfl) rfl
  have hclasspath := @Record.extend _ _ _ "classpath" "api" (@Record.declare _ _ _ "classpath" himplementation rfl) rfl
  have hboth := @Record.extend _ _ _ "classpath" "implementation" hclasspath rfl
  have hagain := @Record.extend _ _ _ "classpath" "api" hboth rfl
  obtain ⟨⟨names, hnames, hlists, -⟩, -, hextends⟩ := Reach.hierarchy_exact hagain.reach (show "classpath" ∈ _ by decide)
  have hmet : names = ["classpath", "api", "base", "implementation"] := (Except.ok.inj hnames).symm.trans (by decide)
  refine ⟨_, hagain, hextends _ hagain "classpath" (by decide), hmet ▸ hnames, ?_⟩
  exact (hlists _ (fun c hc => if_pos (contains_iff.mpr hc)) _).mpr hmet.symm

end Reach

end BuildGraph.Configurations

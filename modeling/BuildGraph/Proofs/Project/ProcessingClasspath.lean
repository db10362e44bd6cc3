/-
  BuildGraph.Proofs.Project.ProcessingClasspath: what the classpath of a processing task stands for.

  The classpath of a processing task extends what the runtime classpath of its source set extends, and not
  that classpath itself. So the walks through both hierarchies go on alike from there, and what is declared
  beyond is found by both in the same order. What is declared on the runtime classpath itself is found by
  one of them only.

  - `Reachable.createProcessingClasspath_closure`: the runtime classpath stands for what is declared on it,
    then what the new classpath stands for; the two stand for the same exactly if the latter begins with
    what is declared on the runtime classpath.
  - `createProcessingClasspath_omits`: a dependency declared on the runtime classpath alone is left out.
-/

import Mathlib.Data.List.Basic
import BuildGraph.Proofs.Configuration.Attributes
import BuildGraph.Proofs.Files.Resolution
import BuildGraph.Proofs.Project.Parts
import BuildGraph.Proofs.Script.Reachable

namespace BuildGraph

open Operation Project SourceSetName

/-! ## What is declared is declared once -/

namespace Configurations

variable {r s : Configurations} {name x : String} {c : Configuration} {parents : List String}

/-- No two dependencies declared on one configuration are equal. -/
def DeclaresOnce (r : Configurations) : Prop :=
  ∀ c ∈ r.entries, c.dependencies.Pairwise fun a b => (a == b) = false

theorem DeclaresOnce.updateAll {f : Configuration → Configuration} (h : r.DeclaresOnce)
    (hf : ∀ c ∈ r.entries, (f c).dependencies.Pairwise fun a b => (a == b) = false) :
    (r.updateAll name f).DeclaresOnce := by
  intro c hc
  obtain ⟨d, hd, rfl⟩ := List.mem_map.mp hc
  split
  · exact hf d hd
  · exact h d hd

theorem DeclaresOnce.step (h : r.DeclaresOnce) (hs : r.Step s) : s.DeclaresOnce := by
  cases hs with
  | declare hd =>
    obtain ⟨-, rfl⟩ := declare_eq_ok hd
    intro c hc
    rcases List.mem_append.mp hc with hc | hc
    · exact h c hc
    · rw [List.mem_singleton.mp hc]
      exact .nil
  | extend he =>
    obtain ⟨-, -, -, -, rfl⟩ := extend_eq_ok he
    exact h
  | addDependency hd =>
    rw [update_eq_ok hd]
    exact h.updateAll fun c hc => Distinct.pairwise_add (h c hc) _
  | edit other e =>
    refine h.updateAll fun c hc => ?_
    rw [e.dependencies_apply]
    exact h c hc

theorem DeclaresOnce.pairwise (h : r.DeclaresOnce) (name : String) :
    (r.declaredOn name).Pairwise fun a b => (a == b) = false := by
  unfold declaredOn
  split
  · rename_i c hc
    exact h c (mem_of_find? hc)
  · exact .nil

/-! ## What stands under a name -/

theorem entryOf?_eq_some (h : r.entryOf? name = some (.configuration c parents)) :
    name ∈ r.names ∧ r.declaredOn name = c.dependencies ∧ r.graph.successors name = parents := by
  obtain ⟨d, hd, he⟩ := Option.map_eq_some_iff.mp h
  cases he
  exact ⟨exists_find?_iff.mp ⟨_, hd⟩, declaredOn_of_find? hd, rfl⟩

/-- Where two registries have the same under a name, the same is declared and extended there. -/
theorem of_entryOf?_eq (hx : x ∈ r.names) (h : s.entryOf? x = r.entryOf? x) :
    x ∈ s.names ∧ s.declaredOn x = r.declaredOn x ∧ s.graph.successors x = r.graph.successors x := by
  obtain ⟨c, hc⟩ := exists_find?_iff.mpr hx
  have hr : r.entryOf? x = some (.configuration c (r.graph.successors x)) := by rw [entryOf?, hc]; rfl
  obtain ⟨hmem, hdeclared, hsuccessors⟩ := entryOf?_eq_some (h.trans hr)
  exact ⟨hmem, hdeclared.trans (declaredOn_of_find? hc).symm, hsuccessors⟩

end Configurations

theorem Project.Reachable.declaresOnce {p : Project} (h : p.Reachable) : p.configurations.DeclaresOnce := by
  obtain ⟨s, hs⟩ := h
  refine hs.closed (P := fun p => p.configurations.DeclaresOnce) (fun hc hp => ?_) (fun c hc => nomatch hc)
  cases hc with
  | configurations hs => exact hp.step hs
  | _ => exact hp

/-! ## The classpath as it is created -/

namespace Entry

theorem setUp_extendsFrom (c : Configuration) (before parents : List String) :
    (parents.map Configurations.Setup.extendsFrom).foldl (fun e i => setUp i e) (configuration c before) =
      configuration c (Distinct.addAll before parents) := by
  induction parents generalizing before with
  | nil => rfl
  | cons parent parents ih => exact ih _

/-- A processing classpath extends `parents` in order and has the attributes it was given, and nothing is declared on
    it. -/
theorem created_processingClasspath (name task : String) {parents : List String} (hp : parents.Nodup)
    (attributes : AttributeSet) :
    ∃ c, created name (ConfigM.processingClasspathSetup task parents attributes) = .configuration c parents ∧
      c.dependencies = [] ∧ c.attributes = attributes := by
  have hparents : Distinct.addAll [] parents = parents :=
    Distinct.ofList_of_pairwise (hp.imp fun hne => beq_eq_false_iff_ne.mpr hne)
  have hfirst : [Configurations.Setup.canBeConsumed false, .canBeResolved true,
      .description ("Classpath of the " ++ task ++ " task.")].foldl (fun e i => setUp i e) (configuration { name := name } []) =
      configuration { name := name, description := some ("Classpath of the " ++ task ++ " task."), canBeConsumed := false }
        [] := rfl
  rw [created, ConfigM.processingClasspathSetup, List.foldl_append, List.foldl_append, hfirst, setUp_extendsFrom, hparents]
  exact ⟨_, rfl, rfl, attributes.copyTo_empty⟩

end Entry

/-! ## One configuration in place of another -/

namespace Configurations

variable {r s : Configurations} {base name : String}

/-- In `s` there is, besides all that is in `r`, a new configuration that extends what `base` extends and on which
    nothing is declared. -/
structure StandsIn (r s : Configurations) (base name : String) : Prop where
  base_mem : base ∈ r.names
  fresh : name ∉ r.names
  mem : name ∈ s.names
  extends_eq : s.graph.successors name = r.graph.successors base
  declares_nothing : s.declaredOn name = []
  kept : ∀ x ∈ r.names, x ∈ s.names ∧ s.declaredOn x = r.declaredOn x ∧ s.graph.successors x = r.graph.successors x

namespace StandsIn

/-- The walks through the hierarchies of `base`, in `r` and in `s`, and of the new configuration go on alike. -/
theorem preorders (h : r.StandsIn s base name) (hr : r.Sound) :
    ∃ beyond, r.graph.preorder base = base :: beyond ∧ s.graph.preorder base = base :: beyond ∧
      s.graph.preorder name = name :: beyond := by
  have hreached : ∀ x, r.graph.Reaches base x → x ∈ r.names := fun x hx => hx.ends.2.elim fun y hy => hr.target y x hy
  have hsuccessors : ∀ x, r.graph.Reaches base x → s.graph.successors x = r.graph.successors x := fun x hx =>
    (h.kept x (hreached x hx)).2.2
  have hloop : ¬ r.graph.Reaches base base := hr.acyclic base
  have hapart : ¬ r.graph.Reaches base name := fun hn => h.fresh (hreached name hn)
  obtain ⟨beyond, hbefore, hafter⟩ := Digraph.preorder_alike (h.kept base h.base_mem).2.2 hsuccessors hloop hloop
  obtain ⟨beyond', hbefore', hname⟩ := Digraph.preorder_alike h.extends_eq hsuccessors hloop hapart
  cases hbefore.symm.trans hbefore'
  exact ⟨beyond, hbefore, hafter, hname⟩

/-- What the configurations stand for: `base` for what is declared on it and beyond, as before, the new one for
    what is declared beyond. -/
theorem closures (h : r.StandsIn s base name) (hr : r.Sound) :
    ∃ beyond, r.dependencyClosure base = .ok (Distinct.ofList (r.declaredOn base ++ beyond)) ∧
      s.dependencyClosure base = .ok (Distinct.ofList (r.declaredOn base ++ beyond)) ∧
      s.dependencyClosure name = .ok (Distinct.ofList beyond) := by
  obtain ⟨beyond, hbefore, hafter, hname⟩ := h.preorders hr
  have hbeyond : beyond.flatMap s.declaredOn = beyond.flatMap r.declaredOn := by
    refine List.flatMap_congr fun x hx => (h.kept x ?_).2.1
    have hmem : x ∈ r.graph.preorder base := hbefore ▸ List.mem_cons_of_mem _ hx
    rcases r.graph.mem_preorder.mp hmem with rfl | hreaches
    · exact h.base_mem
    · exact hreaches.ends.2.elim fun y hy => hr.target y x hy
  obtain ⟨hbasemem, hbasedeclared, -⟩ := h.kept base h.base_mem
  refine ⟨beyond.flatMap r.declaredOn, ?_, ?_, ?_⟩
  · rw [dependencyClosure_of_mem h.base_mem, hbefore, List.flatMap_cons]
  · rw [dependencyClosure_of_mem hbasemem, hafter, List.flatMap_cons, hbasedeclared, hbeyond]
  · rw [dependencyClosure_of_mem h.mem, hname, List.flatMap_cons, h.declares_nothing, hbeyond, List.nil_append]

end StandsIn

end Configurations

namespace Project

variable {p q : Project} {task sourceSet name : String}

/-- A processing classpath is a new configuration with what the runtime classpath extends and its attributes, and
    nothing declared on it; all others are as before. -/
theorem createProcessingClasspath_entry (hs : p.Sound)
    (hok : ConfigM.createProcessingClasspath task sourceSet p = .ok name q) :
    ∃ base c, p.configurations.find? (runtimeClasspath sourceSet) = some base ∧ name ∉ p.configurations.names ∧
      q.configurations.entryOf? name =
        some (.configuration c (p.configurations.graph.successors (runtimeClasspath sourceSet))) ∧
      c.dependencies = [] ∧ c.attributes = base.attributes ∧
      ∀ x ∈ p.configurations.names, q.configurations.entryOf? x = p.configurations.entryOf? x := by
  obtain ⟨rfl, base, hbase, hcreate⟩ := ConfigM.createProcessingClasspath_ok hs.sourceSets hok
  obtain ⟨hnone, houtline⟩ := ConfigM.outline_createConfiguration hs hcreate
  have honce : p.configurations.graph.edges.Nodup := hs.configurations.sound.once
  obtain ⟨c, hcreated, hdependencies, hattributes⟩ := Entry.created_processingClasspath (task ++ "Classpath") task
    (Digraph.nodup_successors honce (runtimeClasspath sourceSet)) base.attributes
  have hfresh : task ++ "Classpath" ∉ p.configurations.names := by
    rw [← Configurations.find?_eq_none_iff]
    exact Option.map_eq_none_iff.mp hnone
  refine ⟨base, c, hbase, hfresh, ?_, hdependencies, hattributes, fun x hx => ?_⟩
  · show q.outline (.configuration _) = _
    rw [houtline, Outline.set_self, hcreated]
  · have hne : x ≠ task ++ "Classpath" := fun he => hfresh (he ▸ hx)
    show q.outline (.configuration x) = p.outline (.configuration x)
    rw [houtline, Outline.set_of_ne fun he => hne (Key.configuration.inj he)]

/-- A processing classpath stands in for the runtime classpath. -/
theorem createProcessingClasspath_standsIn (hs : p.Sound)
    (hok : ConfigM.createProcessingClasspath task sourceSet p = .ok name q) :
    p.configurations.StandsIn q.configurations (runtimeClasspath sourceSet) name := by
  obtain ⟨base, c, hbase, hfresh, hself, hdependencies, -, hothers⟩ := createProcessingClasspath_entry hs hok
  obtain ⟨hmem, hdeclared, hextends⟩ := Configurations.entryOf?_eq_some hself
  exact {
    base_mem := Configurations.exists_find?_iff.mp ⟨base, hbase⟩
    fresh := hfresh
    mem := hmem
    extends_eq := hextends
    declares_nothing := hdeclared.trans hdependencies
    kept := fun x hx => Configurations.of_entryOf?_eq hx (hothers x hx) }

/-- The runtime classpath stands for what is declared on it and then for what the new classpath stands for; creating
    that makes no difference to it. The two stand for the same if and only if the new classpath begins with what is
    declared on the runtime classpath itself, so they do if nothing is declared there. -/
theorem Reachable.createProcessingClasspath_closure (h : p.Reachable)
    (hok : ConfigM.createProcessingClasspath task sourceSet p = .ok name q) :
    ∃ old new, p.configurations.dependencyClosure (runtimeClasspath sourceSet) = .ok old ∧
      q.configurations.dependencyClosure (runtimeClasspath sourceSet) = .ok old ∧
      q.configurations.dependencyClosure name = .ok new ∧
      old = Distinct.addAll (p.configurations.declaredOn (runtimeClasspath sourceSet)) new ∧
      ((old == new) = true ↔ (p.configurations.declaredOn (runtimeClasspath sourceSet)).isPrefixOf new = true) ∧
      (p.configurations.declaredOn (runtimeClasspath sourceSet) = [] → old = new) := by
  obtain ⟨beyond, hbefore, hafter, hname⟩ :=
    (createProcessingClasspath_standsIn h.sound hok).closures h.sound.configurations.sound
  have hdirect := Distinct.ofList_of_pairwise (h.declaresOnce.pairwise (runtimeClasspath sourceSet))
  -- what is declared on the runtime classpath comes first, and what is declared beyond is added to it
  have hold : Distinct.ofList (p.configurations.declaredOn (runtimeClasspath sourceSet) ++ beyond) =
      Distinct.addAll (p.configurations.declaredOn (runtimeClasspath sourceSet)) (Distinct.ofList beyond) := by
    rw [Distinct.addAll_ofList, Distinct.ofList, Distinct.addAll_append]
    exact congrArg (Distinct.addAll · beyond) hdirect
  refine ⟨_, Distinct.ofList beyond, hbefore, hafter, hname, hold, ?_, fun hnone => ?_⟩
  · rw [hold]
    exact Distinct.addAll_beq_right (Distinct.pairwise_addAll .nil beyond)
  · rw [hnone, List.nil_append]

/-- A driver that is declared on the runtime classpath and comes first in what that extends is not missed. -/
theorem createProcessingClasspath_closure_of_inherited :
    ∃ p q old new, p.Reachable ∧ p.configurations.declaredOn "runtimeClasspath" = [.module "org.example:driver:2.0"] ∧
      ConfigM.createProcessingClasspath "processAot" "main" p = .ok "processAotClasspath" q ∧
      q.configurations.dependencyClosure "runtimeClasspath" = .ok old ∧
      q.configurations.dependencyClosure "processAotClasspath" = .ok new ∧ (old == new) = true := by
  obtain ⟨p, q, hreachable, hdirect, hq, hclosure⟩ : ∃ p q, p.Reachable ∧
      p.configurations.declaredOn "runtimeClasspath" = [.module "org.example:driver:2.0"] ∧
      ConfigM.createProcessingClasspath "processAot" "main" p = .ok "processAotClasspath" q ∧
      q.configurations.dependencyClosure "processAotClasspath" = .ok [.module "org.example:driver:2.0"] :=
    ⟨_, _, Session.performAll_reachable {} [Plugin.java.step,
      .act (.configuration (.addDependency "runtimeClasspath" (.module "org.example:driver:2.0"))),
      .act (.configuration (.addDependency "runtimeOnly" (.module "org.example:driver:2.0")))], rfl, rfl, rfl⟩
  obtain ⟨old, new, -, hold, hnew, -, hsame, -⟩ := Reachable.createProcessingClasspath_closure hreachable hq
  cases hnew.symm.trans hclosure
  have hbegins : (p.configurations.declaredOn (runtimeClasspath "main")).isPrefixOf [.module "org.example:driver:2.0"] = true := by
    rw [show runtimeClasspath "main" = "runtimeClasspath" by decide, hdirect]
    rfl
  exact ⟨p, q, old, _, hreachable, hdirect, hq, hold, hnew, hsame.mpr hbegins⟩

/-- A dependency that is declared on the runtime classpath itself, and on nothing that it extends, is missing from what
    the new classpath stands for. -/
theorem createProcessingClasspath_omits :
    ∃ p q, p.Reachable ∧ ConfigM.createProcessingClasspath "processAot" "main" p = .ok "processAotClasspath" q ∧
      q.configurations.dependencyClosure "runtimeClasspath" = .ok [.module "org.example:direct:1.0"] ∧
      q.configurations.dependencyClosure "processAotClasspath" = .ok [] :=
  ⟨_, _, Session.performAll_reachable {} [Plugin.java.step,
    .act (.configuration (.addDependency "runtimeClasspath" (.module "org.example:direct:1.0")))], rfl, rfl, rfl⟩

end Project

end BuildGraph

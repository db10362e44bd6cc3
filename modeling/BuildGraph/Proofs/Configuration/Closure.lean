/-
  BuildGraph.Proofs.Configuration.Closure: what a configuration stands for, and how that changes.

  A configuration stands for what is declared on it and on all that it extends. One more extension or one more
  dependency changes that for the configuration it is given to and for those that extend it, directly or not
  (`Covers`). For all others the walk through the hierarchy meets the same configurations as before.

  - `contains_closure`: what is found in a closure is declared on what the configuration covers.
  - `covers_extend`: what one more extension adds to what a configuration covers.
  - `Reach.closures_exact`: every closure, and what one more extension or dependency does to all of them.
-/

import BuildGraph.Proofs.Configuration.Reach
import BuildGraph.Proofs.Files.Resolution

namespace BuildGraph.Configurations

variable {r s : Configurations} {name child parent x : String} {d : Dependency} {old added new : List Dependency}

/-- `x` is `c` or extends it, directly or not. -/
def Covers (r : Configurations) (x c : String) : Prop := x = c ∨ r.graph.Reaches x c

theorem Covers.refl (r : Configurations) (x : String) : r.Covers x x := .inl rfl

theorem mem_preorder_iff {c : String} : c ∈ r.graph.preorder x ↔ r.Covers x c := by
  rw [Digraph.mem_preorder, Covers, eq_comm]

theorem Sound.mem_of_covers {c : String} (h : r.Sound) (hc : c ∈ r.names) (hx : r.Covers x c) : x ∈ r.names := by
  rcases hx with rfl | hx
  · exact hc
  · exact hx.ends.1.elim fun y hy => h.source x y hy

/-! ## The closure of a configuration -/

theorem contains_flatMap_declaredOn {names : List String} :
    (names.flatMap r.declaredOn).contains d = true ↔ ∃ c ∈ names, (r.declaredOn c).contains d = true := by
  simp only [List.contains_iff_exists_mem_beq, List.mem_flatMap]
  constructor
  · rintro ⟨e, ⟨c, hc, he⟩, hde⟩
    exact ⟨c, hc, e, he, hde⟩
  · rintro ⟨c, hc, e, he, hde⟩
    exact ⟨e, ⟨c, hc, he⟩, hde⟩

/-- What is found in a closure is declared on what the configuration covers. -/
theorem contains_closure (h : r.dependencyClosure x = .ok old) :
    old.contains d = true ↔ ∃ c, r.Covers x c ∧ (r.declaredOn c).contains d = true := by
  rw [dependencyClosure_of_mem (mem_of_dependencyClosure h)] at h
  cases h
  rw [Distinct.contains_ofList, contains_flatMap_declaredOn]
  simp only [mem_preorder_iff]

/-- What stands in a closure is declared just so on what the configuration covers. -/
theorem declared_of_mem_closure (h : r.dependencyClosure x = .ok old) (hd : d ∈ old) :
    ∃ c, r.Covers x c ∧ d ∈ r.declaredOn c := by
  rw [dependencyClosure_of_mem (mem_of_dependencyClosure h)] at h
  cases h
  obtain ⟨c, hc, hdc⟩ := List.mem_flatMap.mp (Distinct.mem_of_mem_ofList hd)
  exact ⟨c, mem_preorder_iff.mp hc, hdc⟩

theorem pairwise_closure (h : r.dependencyClosure x = .ok old) : old.Pairwise fun a b => (a == b) = false := by
  rw [dependencyClosure_of_mem (mem_of_dependencyClosure h)] at h
  cases h
  exact Distinct.pairwise_addAll .nil _

/-- A closure is what is met on the way, and what is declared on that. -/
theorem closure_congr (hnames : s.names = r.names) (hmet : s.graph.preorder x = r.graph.preorder x)
    (hdeclared : ∀ c, r.Covers x c → s.declaredOn c = r.declaredOn c) : s.dependencyClosure x = r.dependencyClosure x := by
  by_cases hx : x ∈ r.names
  · rw [dependencyClosure_of_mem hx, dependencyClosure_of_mem (hnames ▸ hx : x ∈ s.names), hmet,
      List.flatMap_congr fun c hc => hdeclared c (mem_preorder_iff.mp hc)]
  · rw [dependencyClosure_of_not_mem hx, dependencyClosure_of_not_mem (hnames ▸ hx : x ∉ s.names)]

/-! ## One more extension -/

/-- Extending covers what was covered before, and for those that cover the child also what the parent covers. -/
theorem covers_extend {c : String} (h : r.extend child parent = .ok s) :
    s.Covers x c ↔ r.Covers x c ∨ r.Covers x child ∧ r.Covers parent c := by
  obtain ⟨-, -, -, -, rfl⟩ := extend_eq_ok h
  have hmono : ∀ {a b}, r.graph.Reaches a b →
      (⟨r.names, Digraph.connect r.extensions child parent⟩ : Digraph String).Reaches a b := fun hr =>
    hr.mono fun e he => Digraph.mem_connect.mpr (.inl he)
  constructor
  · rintro (rfl | hr)
    · exact .inl (.refl ..)
    · rcases Digraph.Reaches.of_connect (g := r.graph) hr with hr | ⟨hchild, hparent⟩
      · exact .inl (.inr hr)
      · exact .inr ⟨hchild, hparent.imp_left Eq.symm⟩
  · have hedge : (⟨r.names, Digraph.connect r.extensions child parent⟩ : Digraph String).Reaches child parent :=
      .edge (Digraph.mem_connect.mpr (.inr rfl))
    rintro (hxc | ⟨hchild, hparent⟩)
    · exact hxc.imp_right hmono
    · refine .inr ?_
      rcases hchild with rfl | hchild <;> rcases hparent with rfl | hparent
      · exact hedge
      · exact hedge.trans (hmono hparent)
      · exact (hmono hchild).trans hedge
      · exact (hmono hchild).trans (hedge.trans (hmono hparent))

/-- What does not cover the child is walked through as before. -/
theorem preorder_extend (hr : r.Sound) (h : r.extend child parent = .ok s) (hx : ¬ r.Covers x child) :
    s.graph.preorder x = r.graph.preorder x := by
  obtain ⟨-, -, -, -, rfl⟩ := extend_eq_ok h
  have hsame : ∀ y, r.Covers x y →
      (⟨r.names, Digraph.connect r.extensions child parent⟩ : Digraph String).successors y = r.graph.successors y := by
    intro y hy
    have hne : y ≠ child := fun he => hx (he ▸ hy)
    exact Digraph.successors_connect.trans (if_neg hne)
  obtain ⟨beyond, hbefore, hafter⟩ := Digraph.preorder_alike (hsame x (.refl ..)) (fun y hy => hsame y (.inr hy))
    (hr.acyclic x) (hr.acyclic x)
  exact hafter.trans hbefore.symm

theorem names_extend (h : r.extend child parent = .ok s) : s.names = r.names := by
  obtain ⟨-, -, -, -, rfl⟩ := extend_eq_ok h
  rfl

theorem declaredOn_extend (h : r.extend child parent = .ok s) : s.declaredOn = r.declaredOn := by
  obtain ⟨-, -, -, -, rfl⟩ := extend_eq_ok h
  rfl

/-- What covers the child stands for what it stood for and for what the parent stands for. -/
theorem contains_closure_extend (h : r.extend child parent = .ok s) (hx : r.Covers x child)
    (hold : r.dependencyClosure x = .ok old) (hadded : r.dependencyClosure parent = .ok added)
    (hnew : s.dependencyClosure x = .ok new) (d : Dependency) : new.contains d = (old.contains d || added.contains d) := by
  rw [Bool.eq_iff_iff, Bool.or_eq_true, contains_closure hold, contains_closure hadded, contains_closure hnew,
    declaredOn_extend h]
  simp only [covers_extend h, hx, true_and, or_and_right, exists_or]

/-! ## One more dependency -/

theorem graph_addDependency (h : r.addDependency name d = .ok s) : s.graph = r.graph := by
  rw [update_eq_ok h]
  exact congrArg (Digraph.mk · r.extensions) (names_updateAll fun _ => rfl)

theorem declaredOn_addDependency (h : r.addDependency name d = .ok s) (c : String) :
    s.declaredOn c = if c = name then Distinct.add (r.declaredOn c) d else r.declaredOn c := by
  have hmem := mem_of_update h
  have hfind : s.find? c = if c = name then (r.find? c).map fun e => { e with dependencies := Distinct.add e.dependencies d }
      else r.find? c := by
    rw [update_eq_ok h]
    exact find?_updateAll (f := fun e => { e with dependencies := Distinct.add e.dependencies d }) (fun _ => rfl) c
  by_cases hc : c = name
  · subst hc
    obtain ⟨found, hfound⟩ := exists_find?_iff.mpr hmem
    rw [if_pos rfl, hfound] at hfind
    rw [if_pos rfl, declaredOn_of_find? hfind, declaredOn_of_find? hfound]
  · rw [if_neg hc] at hfind
    rw [if_neg hc, declaredOn, hfind, declaredOn]

theorem covers_addDependency {c : String} (h : r.addDependency name d = .ok s) : s.Covers x c ↔ r.Covers x c := by
  rw [Covers, graph_addDependency h, Covers]

/-- What covers `name` stands for one more dependency. -/
theorem contains_closure_addDependency (h : r.addDependency name d = .ok s) (hx : r.Covers x name)
    (hold : r.dependencyClosure x = .ok old) (hnew : s.dependencyClosure x = .ok new) (e : Dependency) :
    new.contains e = (old.contains e || d == e) := by
  rw [Bool.eq_iff_iff, Bool.or_eq_true, contains_closure hold, contains_closure hnew]
  simp only [covers_addDependency h, declaredOn_addDependency h]
  constructor
  · rintro ⟨c, hc, he⟩
    split at he
    · rw [Distinct.contains_add, Bool.or_eq_true] at he
      exact he.imp_left fun he => ⟨c, hc, he⟩
    · exact .inl ⟨c, hc, he⟩
  · rintro (⟨c, hc, he⟩ | he)
    · refine ⟨c, hc, ?_⟩
      split
      · rw [Distinct.contains_add, he, Bool.true_or]
      · exact he
    · exact ⟨name, hx, by rw [if_pos rfl, Distinct.contains_add, he, Bool.or_true]⟩

/-- Everything but the new dependency stands where it stood. -/
theorem filter_closure_addDependency (h : r.addDependency name d = .ok s) (hold : r.dependencyClosure x = .ok old)
    (hnew : s.dependencyClosure x = .ok new) : (new.filter fun e => !(e == d)) = old.filter fun e => !(e == d) := by
  have hrespects : ∀ a b : Dependency, (a == b) = true → (!(a == d)) = !(b == d) := fun a b hab => by
    rw [Bool.eq_iff_iff, Bool.not_eq_true', Bool.not_eq_true', Bool.eq_false_iff, Bool.eq_false_iff]
    exact not_congr ⟨fun ha => BEq.trans (BEq.symm hab) ha, fun hb => BEq.trans hab hb⟩
  -- apart from what equals `d`, the same is declared everywhere as before
  have hrest : ∀ c, ((s.declaredOn c).filter fun e => !(e == d)) = (r.declaredOn c).filter fun e => !(e == d) := by
    intro c
    rw [declaredOn_addDependency h]
    split
    · rw [Distinct.filter_add hrespects, if_neg (by simp)]
    · rfl
  rw [dependencyClosure_of_mem (mem_of_dependencyClosure hold)] at hold
  rw [dependencyClosure_of_mem (mem_of_dependencyClosure hnew), graph_addDependency h] at hnew
  cases hold
  cases hnew
  rw [Distinct.filter_ofList hrespects, Distinct.filter_ofList hrespects, List.filter_flatMap, List.filter_flatMap]
  simp only [hrest]

/-! ## Every closure -/

/-- The closure of a configuration holds what is declared on it and on all it extends, and no two dependencies that are
    equal. After one more extension, what covers the child stands for what it stood for and for what the parent stands
    for; everything else for the same list as before. After one more dependency, what covers the configuration it was
    declared on stands for that one as well, and for the rest in the same order; everything else for the same list. -/
theorem Reach.closures_exact (h : Reach r) :
    (∀ n ∈ r.names, ∃ deps, r.dependencyClosure n = .ok deps ∧ deps.Pairwise (fun a b => (a == b) = false) ∧
        (∀ d ∈ deps, ∃ c, r.Covers n c ∧ d ∈ r.declaredOn c) ∧
        ∀ d, deps.contains d = true ↔ ∃ c, r.Covers n c ∧ (r.declaredOn c).contains d = true) ∧
      (∀ child parent s, r.extend child parent = .ok s →
        (∀ x, r.Covers x child → ∃ old added new, r.dependencyClosure x = .ok old ∧
          r.dependencyClosure parent = .ok added ∧ s.dependencyClosure x = .ok new ∧
          ∀ d, new.contains d = (old.contains d || added.contains d)) ∧
        ∀ x, ¬ r.Covers x child → s.dependencyClosure x = r.dependencyClosure x) ∧
      ∀ name d s, r.addDependency name d = .ok s →
        (∀ x, r.Covers x name → ∃ old new, r.dependencyClosure x = .ok old ∧ s.dependencyClosure x = .ok new ∧
          (∀ e, new.contains e = (old.contains e || d == e)) ∧
          (new.filter fun e => !(e == d)) = old.filter fun e => !(e == d)) ∧
        ∀ x, ¬ r.Covers x name → s.dependencyClosure x = r.dependencyClosure x := by
  have hsound := h.sound
  refine ⟨fun n hn => ?_, fun child parent s hs => ⟨fun x hx => ?_, fun x hx => ?_⟩,
    fun name d s hs => ⟨fun x hx => ?_, fun x hx => ?_⟩⟩
  · have hdeps := dependencyClosure_of_mem hn
    exact ⟨_, hdeps, pairwise_closure hdeps, fun d => declared_of_mem_closure hdeps, fun d => contains_closure hdeps⟩
  · obtain ⟨hchild, hparent, -⟩ := extend_eq_ok hs
    have hmem : x ∈ r.names := hsound.mem_of_covers hchild hx
    have hold := dependencyClosure_of_mem hmem
    have hadded := dependencyClosure_of_mem hparent
    have hnew := dependencyClosure_of_mem (names_extend hs ▸ hmem : x ∈ s.names)
    exact ⟨_, _, _, hold, hadded, hnew, contains_closure_extend hs hx hold hadded hnew⟩
  · exact closure_congr (names_extend hs) (preorder_extend hsound hs hx) fun c _ => congrFun (declaredOn_extend hs) c
  · have hmem : x ∈ r.names := hsound.mem_of_covers (mem_of_update hs) hx
    have hnames : s.names = r.names := congrArg Digraph.nodes (graph_addDependency hs)
    have hold := dependencyClosure_of_mem hmem
    have hnew := dependencyClosure_of_mem (hnames ▸ hmem : x ∈ s.names)
    exact ⟨_, _, hold, hnew, contains_closure_addDependency hs hx hold hnew, filter_closure_addDependency hs hold hnew⟩
  · have hgraph := graph_addDependency hs
    refine closure_congr (congrArg Digraph.nodes hgraph) (by rw [hgraph]) fun c hc => ?_
    have hne : c ≠ name := fun he => hx (he ▸ hc)
    rw [declaredOn_addDependency hs, if_neg hne]

/-- Once the tools extend the plugins, the plugins come before the runtime on a classpath that extends all three; nothing
    else is on it than was before. -/
theorem Reach.closures_exact_of_reordering :
    ∃ r s, Reach r ∧ r.extend "tools" "plugins" = .ok s ∧
      r.dependencyClosure "classpath" = .ok [.module "t:tool:1", .module "r:runtime:1", .module "p:plugin:1"] ∧
      r.dependencyClosure "plugins" = .ok [.module "p:plugin:1"] ∧
      s.dependencyClosure "classpath" = .ok [.module "t:tool:1", .module "p:plugin:1", .module "r:runtime:1"] ∧
      ∀ d, [Dependency.module "t:tool:1", .module "p:plugin:1", .module "r:runtime:1"].contains d =
        ([Dependency.module "t:tool:1", .module "r:runtime:1", .module "p:plugin:1"].contains d ||
          [Dependency.module "p:plugin:1"].contains d) := by
  have htools := @Reach.addDependency _ _ "tools" (.module "t:tool:1") (.create "tools" (.finish (.ok ())) .empty) rfl
  have hruntime := @Reach.addDependency _ _ "runtime" (.module "r:runtime:1")
    (.create "runtime" (.finish (.ok ())) htools) rfl
  have hplugins := @Reach.addDependency _ _ "plugins" (.module "p:plugin:1")
    (.create "plugins" (.finish (.ok ())) hruntime) rfl
  have hclasspath := Reach.create "classpath"
    (.extend "tools" fun _ => .extend "runtime" fun _ => .extend "plugins" .finish) hplugins
  obtain ⟨-, hextend, -⟩ := Reach.closures_exact hclasspath
  obtain ⟨hgains, -⟩ := hextend "tools" "plugins" _ rfl
  obtain ⟨old, added, new, hold, hadded, hnew, hcontains⟩ := hgains "classpath" (.inr (.edge (by decide)))
  obtain rfl := Except.ok.inj hold
  obtain rfl := Except.ok.inj hadded
  obtain rfl := Except.ok.inj hnew
  exact ⟨_, _, hclasspath, rfl, hold, hadded, hnew, hcontains⟩

end BuildGraph.Configurations

/-
  BuildGraph.Proofs.Files.Resolution: what a file collection resolves to.

  `Meets` says which elements a collection leads to: its own, the configurations that a configuration
  extends, and the elements of files declared on a configuration. It is the least such relation, and
  knows nothing of the order of the search or of what was looked into before.

  The search itself is a recursion without a bound (`Collects`), which passes over configurations it
  has looked into, finished or not. Whenever a part of it is done, all that was newly looked into has
  been dealt with in full (`Collects.complete`), so at the end nothing is missing.

  - `exists_collects`: the recursion comes to an end, and `resolveFiles` is what it comes to.
  - `Project.Reachable.resolveFiles_exact`: resolving fails exactly if something is met that does
    not exist, and gives the paths of all that is met otherwise, each once.
-/

import BuildGraph.Project.Resolution
import BuildGraph.Proofs.Files.Distinct
import BuildGraph.Proofs.Files.Path
import BuildGraph.Proofs.Project.Evolution

namespace BuildGraph

/-! ## Equal elements -/

/-- Equal elements are the same, but for how the locations of directories are written. -/
theorem FileElement.beq_cases {e e' : FileElement} (h : (e == e') = true) :
    e = e' ∨ ∃ l m, e = .dir l ∧ e' = .dir m ∧ (l == m) = true := by
  cases e with
  | output a =>
    cases e' with
    | output b => exact .inl (congrArg _ (beq_iff_eq.mp (show (a == b) = true from h)))
    | dir m => cases h
    | configuration b => cases h
  | dir l =>
    cases e' with
    | dir m => exact .inr ⟨l, m, rfl, rfl, h⟩
    | output b => cases h
    | configuration b => cases h
  | configuration a =>
    cases e' with
    | configuration b => exact .inl (congrArg _ (beq_iff_eq.mp (show (a == b) = true from h)))
    | output b => cases h
    | dir m => cases h

instance : EquivBEq FileCollection where
  rfl := fun {c} => (BEq.rfl : (c.elements == c.elements) = true)
  symm := fun {c d} h => Distinct.list_beq_symm (show (c.elements == d.elements) = true from h)
  trans := fun {c d e} h h' =>
    Distinct.list_beq_trans (show (c.elements == d.elements) = true from h) (show (d.elements == e.elements) = true from h')

instance : EquivBEq Dependency where
  rfl := by
    intro d
    cases d with
    | module m => exact (BEq.rfl : (m == m) = true)
    | files c => exact (BEq.rfl : (c == c) = true)
  symm := by
    intro d e h
    cases d with
    | module m =>
      cases e with
      | module n => exact (BEq.symm (show (m == n) = true from h) : (n == m) = true)
      | files => cases h
    | files c =>
      cases e with
      | module => cases h
      | files c' => exact (BEq.symm (show (c == c') = true from h) : (c' == c) = true)
  trans := by
    intro d e f h h'
    cases d with
    | module m =>
      cases e with
      | module n =>
        cases f with
        | module o => exact (BEq.trans (show (m == n) = true from h) (show (n == o) = true from h') : (m == o) = true)
        | files => cases h'
      | files => cases h
    | files c =>
      cases e with
      | module => cases h
      | files c' =>
        cases f with
        | module => cases h'
        | files c'' => exact (BEq.trans (show (c == c') = true from h) (show (c' == c'') = true from h') : (c == c'') = true)

/-- A dependency equal to files is files with equal elements. -/
theorem Dependency.exists_files_of_beq {c : FileCollection} {d : Dependency} (h : (Dependency.files c == d) = true) :
    ∃ c', d = .files c' ∧ (c.elements == c'.elements) = true := by
  cases d with
  | module m => cases h
  | files c' => exact ⟨c', rfl, h⟩

namespace Project

variable {p : Project} {g g' : Gathering} {es : List FileElement} {e : FileElement} {name : String}

/-! ## What is met -/

/-- The elements that `es` lead to. -/
inductive Meets (p : Project) (es : List FileElement) : FileElement → Prop
  | element {e : FileElement} : e ∈ es → Meets p es e
  | inherits {child parent : String} : Meets p es (.configuration child) →
    (child, parent) ∈ p.configurations.extensions → Meets p es (.configuration parent)
  | declared {name : String} {c : Configuration} {files : FileCollection} {e : FileElement} :
    Meets p es (.configuration name) → p.configurations.find? name = some c → .files files ∈ c.dependencies →
      e ∈ files.elements → Meets p es e

/-- The search for paths, without a bound on its depth. -/
inductive Collects (p : Project) : Gathering → List FileElement → Except ConfigError Gathering → Prop
  | nil {g : Gathering} : Collects p g [] (.ok g)
  | output {g : Gathering} {name : String} {es : List FileElement} {s : SourceSet} {r : Except ConfigError Gathering} :
    p.sourceSets.get name = .ok s →
      Collects p { g with paths := Distinct.addAll g.paths (p.outputPaths s.output) } es r →
      Collects p g (.output name :: es) r
  | outputMissing {g : Gathering} {name : String} {es : List FileElement} {e : ConfigError} :
    p.sourceSets.get name = .error e → Collects p g (.output name :: es) (.error e)
  | dir {g : Gathering} {l : Location} {es : List FileElement} {r : Except ConfigError Gathering} :
    Collects p { g with paths := Distinct.add g.paths (p.layout.resolve l) } es r → Collects p g (.dir l :: es) r
  /-- A configuration that was looked into is passed over. -/
  | visited {g : Gathering} {name : String} {es : List FileElement} {r : Except ConfigError Gathering} :
    name ∈ g.visited → Collects p g es r → Collects p g (.configuration name :: es) r
  | configuration {g g' : Gathering} {name : String} {es : List FileElement} {deps : List Dependency}
    {r : Except ConfigError Gathering} :
    name ∉ g.visited → p.configurations.dependencyClosure name = .ok deps →
      Collects p { g with visited := name :: g.visited } (deps.flatMap Dependency.elements) (.ok g') →
      Collects p g' es r → Collects p g (.configuration name :: es) r
  | configurationFails {g : Gathering} {name : String} {es : List FileElement} {deps : List Dependency} {e : ConfigError} :
    name ∉ g.visited → p.configurations.dependencyClosure name = .ok deps →
      Collects p { g with visited := name :: g.visited } (deps.flatMap Dependency.elements) (.error e) →
      Collects p g (.configuration name :: es) (.error e)
  | configurationMissing {g : Gathering} {name : String} {es : List FileElement} {e : ConfigError} :
    name ∉ g.visited → p.configurations.dependencyClosure name = .error e →
      Collects p g (.configuration name :: es) (.error e)

/-! ## The search comes to an end -/

/-- What was looked into stays so. -/
theorem Collects.visited_subset {r : Except ConfigError Gathering} (h : Collects p g es r) :
    ∀ g', r = .ok g' → ∀ name ∈ g.visited, name ∈ g'.visited := by
  induction h with
  | nil =>
    rintro _ ⟨⟩ _ h
    exact h
  | output _ _ ih => exact ih
  | dir _ ih => exact ih
  | visited _ _ ih => exact ih
  | configuration _ _ _ _ ih₁ ih₂ =>
    intro g' hr other ho
    exact ih₂ g' hr other (ih₁ _ rfl other (List.mem_cons_of_mem _ ho))
  | outputMissing => exact nofun
  | configurationFails => exact nofun
  | configurationMissing => exact nofun

/-- How many configurations there are that were not looked into. -/
def unvisited (p : Project) (visited : List String) : Nat := p.configurations.names.countP (· ∉ visited)

theorem unvisited_le {visited visited' : List String} (h : ∀ name ∈ visited, name ∈ visited') :
    p.unvisited visited' ≤ p.unvisited visited := by
  refine List.countP_mono_left ?_
  intro name _ hn
  simp only [decide_eq_true_eq] at hn ⊢
  exact fun hm => hn (h name hm)

theorem unvisited_cons_lt {visited : List String} (hn : name ∈ p.configurations.names) (hv : name ∉ visited) :
    p.unvisited (name :: visited) < p.unvisited visited := by
  have hsplit : p.unvisited visited = p.configurations.names.countP (· = name) + p.unvisited (name :: visited) :=
    Walk.countP_not_mem_eq id p.configurations.names hv
  have hpos : 0 < p.configurations.names.countP (· = name) := List.countP_pos_iff.mpr ⟨name, hn, by simp⟩
  omega

/-- As deep as there are configurations left to look into, the bounded search is the search. -/
theorem collects_foldlM (depth : Nat) (g : Gathering) (es : List FileElement) (hd : p.unvisited g.visited < depth) :
    Collects p g es (es.foldlM (p.gather depth) g) := by
  induction depth generalizing g es with
  | zero => omega
  | succ depth ihd =>
    induction es generalizing g with
    | nil => exact .nil
    | cons e es ih =>
      rw [List.foldlM_cons]
      cases e with
      | output name =>
        cases hs : p.sourceSets.get name with
        | error e =>
          rw [gather, hs]
          exact .outputMissing hs
        | ok s =>
          rw [gather, hs]
          exact .output hs (ih _ hd)
      | dir l => exact .dir (ih _ hd)
      | configuration name =>
        by_cases hv : name ∈ g.visited
        · rw [gather, if_pos hv]
          exact .visited hv (ih g hd)
        · rw [gather, if_neg hv]
          by_cases hn : name ∈ p.configurations.names
          · obtain ⟨deps, hdeps⟩ : ∃ deps, p.configurations.dependencyClosure name = .ok deps :=
              ⟨_, Configurations.dependencyClosure_of_mem hn⟩
            have hlt : p.unvisited (name :: g.visited) < depth := by
              have := unvisited_cons_lt hn hv
              omega
            have hinner := ihd { g with visited := name :: g.visited } (deps.flatMap Dependency.elements) hlt
            rw [hdeps]
            show Collects p g _ (List.foldlM (p.gather depth) _ _ >>= fun g' => es.foldlM (p.gather (depth + 1)) g')
            cases hr : (deps.flatMap Dependency.elements).foldlM (p.gather depth) { g with visited := name :: g.visited } with
            | error e =>
              rw [hr] at hinner
              exact .configurationFails hv hdeps hinner
            | ok g' =>
              rw [hr] at hinner
              refine .configuration hv hdeps hinner (ih g' ?_)
              exact Nat.lt_of_le_of_lt (unvisited_le (hinner.visited_subset g' rfl)) (Nat.lt_succ_of_lt hlt)
          · rw [Configurations.dependencyClosure_of_not_mem hn]
            exact .configurationMissing hv (Configurations.dependencyClosure_of_not_mem hn)

/-- The recursion comes to an end, and resolving gives the paths it comes to. -/
theorem exists_collects (p : Project) (c : FileCollection) :
    ∃ r, Collects p {} c.elements r ∧ p.resolveFiles c = r.map (·.paths) := by
  refine ⟨_, collects_foldlM (p.configurations.entries.length + 1) {} c.elements ?_, rfl⟩
  have hle : p.unvisited [] ≤ p.configurations.names.length := List.countP_le_length
  have hlen : p.configurations.names.length = p.configurations.entries.length := List.length_map ..
  show p.unvisited [] < _
  omega

/-! ## Nothing is lost -/

/-- What an element stands for has been found; of a configuration, that it was looked into. -/
def Handled (p : Project) (g : Gathering) : FileElement → Prop
  | .output name => ∃ s, p.sourceSets.get name = .ok s ∧ ∀ x ∈ p.outputPaths s.output, g.paths.contains x = true
  | .dir l => g.paths.contains (p.layout.resolve l) = true
  | .configuration name => name ∈ g.visited

/-- What a part of the search that is done has achieved. -/
structure Done (p : Project) (g : Gathering) (es : List FileElement) (g' : Gathering) : Prop where
  paths : ∀ x, g.paths.contains x = true → g'.paths.contains x = true
  visited : ∀ name ∈ g.visited, name ∈ g'.visited
  handled : ∀ e ∈ es, Handled p g' e
  /-- What was newly looked into has been dealt with in full. -/
  expanded : ∀ name ∈ g'.visited, name ∉ g.visited →
    ∃ deps, p.configurations.dependencyClosure name = .ok deps ∧ ∀ e ∈ deps.flatMap Dependency.elements, Handled p g' e

theorem Handled.mono (h : Handled p g e) (hp : ∀ x, g.paths.contains x = true → g'.paths.contains x = true)
    (hv : ∀ name ∈ g.visited, name ∈ g'.visited) : Handled p g' e := by
  cases e with
  | output name =>
    obtain ⟨s, hs, hall⟩ := h
    exact ⟨s, hs, fun x hx => hp x (hall x hx)⟩
  | dir l => exact hp _ h
  | configuration name => exact hv name h

/-- Equal elements stand for the same. -/
theorem Handled.congr {e' : FileElement} (h : Handled p g e) (he : (e == e') = true) : Handled p g e' := by
  rcases FileElement.beq_cases he with rfl | ⟨l, m, rfl, rfl, hlm⟩
  · exact h
  · exact (List.contains_congr (p.layout.resolve_congr hlm)).symm.trans h

theorem Collects.complete {r : Except ConfigError Gathering} (h : Collects p g es r) :
    ∀ g', r = .ok g' → Done p g es g' := by
  induction h with
  | nil =>
    rintro _ ⟨⟩
    exact ⟨fun _ h => h, fun _ h => h, by simp, fun _ h h' => absurd h h'⟩
  | @output g name es s r hs _ ih =>
    intro g' hr
    obtain ⟨hpaths, hvisited, hhandled, hexpanded⟩ := ih g' hr
    refine ⟨fun x hx => hpaths x ?_, hvisited, ?_, hexpanded⟩
    · rw [Distinct.contains_addAll, hx, Bool.true_or]
    · intro e he
      rcases List.mem_cons.mp he with rfl | he
      · refine ⟨s, hs, fun x hx => hpaths x ?_⟩
        rw [Distinct.contains_addAll, List.contains_iff_exists_mem_beq.mpr ⟨x, hx, BEq.rfl⟩, Bool.or_true]
      · exact hhandled e he
  | @dir g l es r _ ih =>
    intro g' hr
    obtain ⟨hpaths, hvisited, hhandled, hexpanded⟩ := ih g' hr
    refine ⟨fun x hx => hpaths x ?_, hvisited, ?_, hexpanded⟩
    · rw [Distinct.contains_add, hx, Bool.true_or]
    · intro e he
      rcases List.mem_cons.mp he with rfl | he
      · refine hpaths _ ?_
        rw [Distinct.contains_add, BEq.rfl, Bool.or_true]
      · exact hhandled e he
  | @visited g name es r hv _ ih =>
    intro g' hr
    obtain ⟨hpaths, hvisited, hhandled, hexpanded⟩ := ih g' hr
    refine ⟨hpaths, hvisited, fun e he => ?_, hexpanded⟩
    rcases List.mem_cons.mp he with rfl | he
    · exact hvisited name hv
    · exact hhandled e he
  | @configuration g g₁ name es deps r hv hdeps _ _ ih₁ ih₂ =>
    intro g' hr
    obtain ⟨hpaths₁, hvisited₁, hhandled₁, hexpanded₁⟩ := ih₁ g₁ rfl
    obtain ⟨hpaths, hvisited, hhandled, hexpanded⟩ := ih₂ g' hr
    have hname : name ∈ g₁.visited := hvisited₁ name (List.mem_cons_self ..)
    refine ⟨fun x hx => hpaths x (hpaths₁ x hx), fun n hn => hvisited n (hvisited₁ n (List.mem_cons_of_mem _ hn)),
      fun e he => ?_, fun other ho hnew => ?_⟩
    · rcases List.mem_cons.mp he with rfl | he
      · exact hvisited name hname
      · exact hhandled e he
    · -- looked into after `name` was done, while it was being done, or `name` itself
      by_cases ho₁ : other ∈ g₁.visited
      · by_cases hon : other = name
        · subst hon
          exact ⟨deps, hdeps, fun e he => (hhandled₁ e he).mono hpaths hvisited⟩
        · obtain ⟨deps', hdeps', hall⟩ := hexpanded₁ other ho₁ (by simp [hon, hnew])
          exact ⟨deps', hdeps', fun e he => (hall e he).mono hpaths hvisited⟩
      · exact hexpanded other ho ho₁
  | outputMissing => exact nofun
  | configurationFails => exact nofun
  | configurationMissing => exact nofun

/-! ## Nothing else is found -/

/-- A path of something met. -/
def Yields (p : Project) (es : List FileElement) (x : Path) : Prop :=
  (∃ l, Meets p es (.dir l) ∧ x = p.layout.resolve l) ∨
    ∃ name s, Meets p es (.output name) ∧ p.sourceSets.find? name = some s ∧ x ∈ p.outputPaths s.output

/-- Something met that does not exist. -/
def Lacks (p : Project) (es : List FileElement) : Prop :=
  (∃ name, Meets p es (.output name) ∧ name ∉ p.sourceSets.names) ∨
    ∃ name, Meets p es (.configuration name) ∧ name ∉ p.configurations.names

/-- All that a met configuration extends is met. -/
theorem Meets.reaches (h : Meets p es (.configuration name)) {parent : String}
    (hr : p.configurations.graph.Reaches name parent) : Meets p es (.configuration parent) := by
  refine hr.closed (P := fun a => Meets p es (.configuration a)) (fun a b hab ha => ?_) h
  exact .inherits ha hab

/-- The elements a configuration stands for are met with it. -/
theorem Meets.closure (h : Meets p es (.configuration name)) {deps : List Dependency}
    (hdeps : p.configurations.dependencyClosure name = .ok deps) (he : e ∈ deps.flatMap Dependency.elements) :
    Meets p es e := by
  obtain ⟨d, hd, hde⟩ := List.mem_flatMap.mp he
  rw [Configurations.dependencyClosure_of_mem (Configurations.mem_of_dependencyClosure hdeps)] at hdeps
  cases hdeps
  obtain ⟨parent, hparent, hd⟩ := List.mem_flatMap.mp (Distinct.mem_of_mem_ofList hd)
  obtain ⟨c, hc, hd⟩ := Configurations.mem_declaredOn.mp hd
  have hmet : Meets p es (.configuration parent) := by
    rcases (Digraph.mem_preorder _).mp hparent with rfl | hr
    · exact h
    · exact h.reaches hr
  cases d with
  | module m => simp [Dependency.elements] at hde
  | files f => exact .declared hmet hc hd hde

theorem Collects.sound {es₀ : List FileElement} {r : Except ConfigError Gathering} (h : Collects p g es r)
    (hs : p.sourceSets.Sound) (hes : ∀ e ∈ es, Meets p es₀ e) :
    (∀ g', r = .ok g' → ∀ x ∈ g'.paths, x ∈ g.paths ∨ Yields p es₀ x) ∧ ∀ e, r = .error e → Lacks p es₀ := by
  induction h with
  | nil =>
    refine ⟨?_, nofun⟩
    rintro _ ⟨⟩ x hx
    exact .inl hx
  | @output g name es s r hget _ ih =>
    have hmet := hes _ (List.mem_cons_self ..)
    obtain ⟨hpaths, hlacks⟩ := ih fun e he => hes e (List.mem_cons_of_mem _ he)
    refine ⟨fun g' hr x hx => ?_, hlacks⟩
    rcases hpaths g' hr x hx with hx | hx
    · rcases Distinct.mem_addAll hx with hx | hx
      · exact .inl hx
      · exact .inr (.inr ⟨name, s, hmet, SourceSets.get_eq_ok hget, hx⟩)
    · exact .inr hx
  | @dir g l es r _ ih =>
    have hmet := hes _ (List.mem_cons_self ..)
    obtain ⟨hpaths, hlacks⟩ := ih fun e he => hes e (List.mem_cons_of_mem _ he)
    refine ⟨fun g' hr x hx => ?_, hlacks⟩
    rcases hpaths g' hr x hx with hx | hx
    · rcases Distinct.mem_add hx with hx | rfl
      · exact .inl hx
      · exact .inr (.inl ⟨l, hmet, rfl⟩)
    · exact .inr hx
  | visited _ _ ih => exact ih fun e he => hes e (List.mem_cons_of_mem _ he)
  | configuration _ hdeps _ _ ih₁ ih₂ =>
    have hmet := hes _ (List.mem_cons_self ..)
    obtain ⟨hpaths₁, -⟩ := ih₁ fun e he => hmet.closure hdeps he
    obtain ⟨hpaths, hlacks⟩ := ih₂ fun e he => hes e (List.mem_cons_of_mem _ he)
    refine ⟨fun g' hr x hx => ?_, hlacks⟩
    rcases hpaths g' hr x hx with hx | hx
    · exact hpaths₁ _ rfl x hx
    · exact .inr hx
  | @outputMissing g name es e hget =>
    refine ⟨nofun, fun _ _ => .inl ⟨name, hes _ (List.mem_cons_self ..), fun hn => ?_⟩⟩
    obtain ⟨s, hf⟩ := hs.exists_find?_iff.mpr hn
    rw [SourceSets.get_of_find? hf] at hget
    cases hget
  | configurationFails _ hdeps _ ih =>
    have hmet := hes _ (List.mem_cons_self ..)
    obtain ⟨-, hlacks⟩ := ih fun e he => hmet.closure hdeps he
    exact ⟨nofun, hlacks⟩
  | @configurationMissing g name es e _ hdeps =>
    refine ⟨nofun, fun _ _ => .inr ⟨name, hes _ (List.mem_cons_self ..), fun hn => ?_⟩⟩
    rw [Configurations.dependencyClosure_of_mem hn] at hdeps
    cases hdeps

theorem Collects.pairwise {r : Except ConfigError Gathering} (h : Collects p g es r)
    (hg : g.paths.Pairwise fun x y => (x == y) = false) :
    ∀ g', r = .ok g' → g'.paths.Pairwise fun x y => (x == y) = false := by
  induction h with
  | nil =>
    rintro _ ⟨⟩
    exact hg
  | output _ _ ih => exact ih (Distinct.pairwise_addAll hg _)
  | dir _ ih => exact ih (Distinct.pairwise_add hg _)
  | visited _ _ ih => exact ih hg
  | configuration _ _ _ _ ih₁ ih₂ => exact ih₂ (ih₁ hg _ rfl)
  | outputMissing => exact nofun
  | configurationFails => exact nofun
  | configurationMissing => exact nofun

/-! ## What resolving gives -/

/-- A configuration below one that was looked into, or anything else that has been dealt with. -/
def Covered (p : Project) (g : Gathering) : FileElement → Prop
  | .configuration name => ∃ top ∈ g.visited, name = top ∨ p.configurations.graph.Reaches top name
  | e => Handled p g e

theorem Handled.covered (h : Handled p g e) : Covered p g e := by
  cases e with
  | configuration name => exact ⟨name, h, .inl rfl⟩
  | _ => exact h

/-- At the end of the search all that is met is covered. -/
theorem Done.covered (hd : Done p {} es g) (h : Meets p es e) : Covered p g e := by
  induction h with
  | element he => exact (hd.handled _ he).covered
  | inherits _ hext ih =>
    obtain ⟨top, htop, rfl | hr⟩ := ih
    · exact ⟨_, htop, .inr (.edge hext)⟩
    · exact ⟨_, htop, .inr (hr.snoc hext)⟩
  | @declared name c files e _ hc hfiles he ih =>
    obtain ⟨top, htop, hname⟩ := ih
    obtain ⟨deps, hdeps, hall⟩ := hd.expanded top htop (by simp)
    rw [Configurations.dependencyClosure_of_mem (Configurations.mem_of_dependencyClosure hdeps)] at hdeps
    cases hdeps
    have hdeclared : Dependency.files files ∈ (p.configurations.graph.preorder top).flatMap p.configurations.declaredOn :=
      List.mem_flatMap.mpr ⟨name, (Digraph.mem_preorder _).mpr hname, Configurations.mem_declaredOn.mpr ⟨c, hc, hfiles⟩⟩
    -- an equal dependency stands in the closure, and its elements have been dealt with
    obtain ⟨d, hd, hbeq⟩ := Distinct.exists_beq_of_mem_ofList hdeclared
    obtain ⟨files', rfl, hbeq⟩ := Dependency.exists_files_of_beq hbeq
    obtain ⟨e', he', hbeq⟩ := Distinct.exists_beq_of_beq hbeq he
    have := hall e' (List.mem_flatMap.mpr ⟨_, hd, he'⟩)
    exact (this.congr (BEq.symm hbeq)).covered

/-- What is covered exists. -/
theorem Done.not_lacks (hs : p.Sound) (hd : Done p {} es g) : ¬ Lacks p es := by
  rintro (⟨name, hmet, hn⟩ | ⟨name, hmet, hn⟩)
  · obtain ⟨s, hget, -⟩ := hd.covered hmet
    exact hn (hs.sourceSets.exists_find?_iff.mp ⟨s, SourceSets.get_eq_ok hget⟩)
  · obtain ⟨top, htop, hname⟩ := hd.covered hmet
    obtain ⟨deps, hdeps, -⟩ := hd.expanded top htop (by simp)
    rcases hname with rfl | hr
    · exact hn (Configurations.mem_of_dependencyClosure hdeps)
    · obtain ⟨-, child, hchild⟩ := hr.ends
      exact hn (hs.configurations.sound.target child name hchild)

/-- At the end of the search, what was found are the paths of what is met. -/
theorem Done.contains_iff {c : FileCollection} (hd : Done p {} c.elements g)
    (hyields : ∀ x ∈ g.paths, Yields p c.elements x) (x : Path) :
    g.paths.contains x = true ↔
      (∃ l, Meets p c.elements (.dir l) ∧ (x == p.layout.resolve l) = true) ∨
        ∃ name s, Meets p c.elements (.output name) ∧ p.sourceSets.find? name = some s ∧
          ∃ l ∈ s.output.classesDirs ++ [s.output.resourcesDir], (x == p.layout.resolve l) = true := by
  constructor
  · intro hx
    obtain ⟨y, hy, hxy⟩ := List.contains_iff_exists_mem_beq.mp hx
    rcases hyields y hy with ⟨l, hmet, rfl⟩ | ⟨name, s, hmet, hf, hout⟩
    · exact .inl ⟨l, hmet, hxy⟩
    · obtain ⟨l, hl, rfl⟩ := List.mem_map.mp hout
      exact .inr ⟨name, s, hmet, hf, l, hl, hxy⟩
  · rintro (⟨l, hmet, hxl⟩ | ⟨name, s, hmet, hf, l, hl, hxl⟩)
    · exact (List.contains_congr hxl).trans (hd.covered hmet)
    · obtain ⟨s', hget, hall⟩ := hd.covered hmet
      rw [SourceSets.get_of_find? hf] at hget
      cases hget
      exact (List.contains_congr hxl).trans (hall _ (List.mem_map.mpr ⟨l, hl, rfl⟩))

/-- Resolving comes to an end. It succeeds exactly if all that is met exists; then no two of the paths are equal,
    and up to equality they are the paths of the directories and outputs that are met. -/
theorem Reachable.resolveFiles_exact (h : p.Reachable) (c : FileCollection) :
    (∃ r, Collects p {} c.elements r ∧ p.resolveFiles c = r.map (·.paths)) ∧
      ((∃ paths, p.resolveFiles c = .ok paths) ↔
        (∀ name, Meets p c.elements (.output name) → name ∈ p.sourceSets.names) ∧
          ∀ name, Meets p c.elements (.configuration name) → name ∈ p.configurations.names) ∧
      ∀ paths, p.resolveFiles c = .ok paths →
        paths.Pairwise (fun x y => (x == y) = false) ∧
          ∀ x, paths.contains x = true ↔
            (∃ l, Meets p c.elements (.dir l) ∧ (x == p.layout.resolve l) = true) ∨
              ∃ name s, Meets p c.elements (.output name) ∧ p.sourceSets.find? name = some s ∧
                ∃ l ∈ s.output.classesDirs ++ [s.output.resourcesDir], (x == p.layout.resolve l) = true := by
  have hs := h.sound
  obtain ⟨r, hr, hres⟩ := p.exists_collects c
  obtain ⟨hpaths, hlacks⟩ := hr.sound hs.sourceSets fun e he => .element he
  refine ⟨⟨r, hr, hres⟩, ?_⟩
  rw [hres]
  cases r with
  | error e =>
    refine ⟨⟨?_, ?_⟩, ?_⟩
    · rintro ⟨paths, hp⟩
      cases hp
    · rintro ⟨hsets, hconfigurations⟩
      rcases hlacks e rfl with ⟨name, hmet, hn⟩ | ⟨name, hmet, hn⟩
      · exact absurd (hsets name hmet) hn
      · exact absurd (hconfigurations name hmet) hn
    · intro paths hp
      cases hp
  | ok g =>
    have hd := hr.complete g rfl
    have hnone := hd.not_lacks hs
    refine ⟨⟨fun _ => ⟨?_, ?_⟩, fun _ => ⟨g.paths, rfl⟩⟩, ?_⟩
    · intro name hmet
      exact Decidable.not_not.mp fun hn => hnone (.inl ⟨name, hmet, hn⟩)
    · intro name hmet
      exact Decidable.not_not.mp fun hn => hnone (.inr ⟨name, hmet, hn⟩)
    · intro paths hp
      cases hp
      have hyields : ∀ x ∈ g.paths, Yields p c.elements x := fun x hx => (hpaths g rfl x hx).resolve_left (by simp)
      exact ⟨hr.pairwise .nil g rfl, hd.contains_iff hyields⟩

/-- A configuration whose files lead back to it stands for them all the same. -/
theorem resolveFiles_exact_of_cycle :
    ∃ (p : Project) (paths : List Path), p.Reachable ∧
      p.configurations.declaredOn "libs" = [.files ⟨[.configuration "libs", .dir (.build ⟨"generated"⟩)]⟩] ∧
      p.resolveFiles (.configuration "libs") = .ok paths ∧
      paths.contains (p.layout.resolve (.build ⟨"generated"⟩)) = true := by
  have hdeclare : Configurations.Step {} { entries := [{ name := "libs" }] } :=
    .declare (show Configurations.declare {} "libs" = _ from rfl)
  have hfiles : Configurations.Step { entries := [{ name := "libs" }] } { entries := [{ name := "libs", dependencies :=
      [.files ⟨[.configuration "libs", .dir (.build ⟨"generated"⟩)]⟩] }] } :=
    .addDependency (show Configurations.addDependency _ "libs" _ = _ from rfl)
  have hreach : Reachable { ofSettings {} with
      configurations := { entries := [{ name := "libs", dependencies :=
        [.files ⟨[.configuration "libs", .dir (.build ⟨"generated"⟩)]⟩] }] } } :=
    (reachable_ofSettings {}).evolves (.tail (.single (.configurations hdeclare)) (.configurations hfiles))
  refine ⟨_, _, hreach, rfl, rfl, ?_⟩
  obtain ⟨-, -, hexact⟩ := Reachable.resolveFiles_exact hreach (.configuration "libs")
  refine ((hexact _ rfl).2 _).mpr (.inl ⟨.build ⟨"generated"⟩, ?_, BEq.rfl⟩)
  exact .declared (.element (List.mem_cons_self ..)) rfl (List.mem_cons_self ..) (by simp)

end Project

end BuildGraph

/-
  BuildGraph.Proofs.Project.Supply: what ahead-of-time processing puts on the classpaths.

  The generated classes come to the source sets along several ways: a derived source set is compiled with
  what its own configurations declare and with the processing classpath, which declares the outputs that
  are processed and extends what the runtime classpath extends; and the source set that was processed runs
  with the derived output and the generated classes. Each of these links is made by one operation
  (`Outfitted`, `Derived`, `Wired`), and none is taken away as the project grows.

  - `Processed.supplies`: with all links in place, whatever a project resolves these classpaths to contains
    the current outputs, the generated classes, and all directories declared on the processing classpath or
    on anything it extends.
-/

import BuildGraph.Proofs.Files.Resolution
import BuildGraph.Proofs.Project.Growth
import BuildGraph.Proofs.Project.Orderly

namespace BuildGraph

open Operation Project SourceSetName

/-- The source sets whose outputs are processed. -/
def ProcessingKind.inputs (input : String) : ProcessingKind → List String
  | .application => [input]
  | .tests main => [main, input]

/-! ## Creating configurations -/

namespace Configurations

variable {r s : Configurations} {name parent : String}

theorem extensions_runSetup {setup : List Setup} (h : runSetup name setup r = (.ok (), s)) {e : String × String}
    (he : e ∈ r.extensions) : e ∈ s.extensions := by
  have hsteps : Relation.ReflTransGen Step r s := by
    have hrun := (Course.ofSetup setup).steps name r
    rw [Course.run_ofSetup, h] at hrun
    exact hrun
  clear h
  induction hsteps with
  | refl => exact he
  | tail _ hs ih => exact hs.extensions.subset ih

/-- What the set-up of a configuration says it extends it extends. -/
theorem mem_extensions_runSetup {setup : List Setup} (h : runSetup name setup r = (.ok (), s))
    (hp : .extendsFrom parent ∈ setup) : (name, parent) ∈ s.extensions := by
  induction setup generalizing r with
  | nil => cases hp
  | cons i rest ih =>
    rw [runSetup] at h
    cases hi : i.run name r with
    | error e =>
      rw [hi] at h
      cases h
    | ok r' =>
      rw [hi] at h
      rcases List.mem_cons.mp hp with rfl | hp
      · obtain ⟨-, -, -, -, rfl⟩ := extend_eq_ok hi
        exact extensions_runSetup h (Digraph.mem_connect.mpr (.inr rfl))
      · exact ih h hp

end Configurations

namespace ConfigM

variable {p q : Project} {name : String} {u : Unit}

theorem extends_of_createConfiguration {setup : List Configurations.Setup} {parent : String}
    (h : createConfiguration name setup p = .ok u q) (hp : .extendsFrom parent ∈ setup) :
    (name, parent) ∈ q.configurations.extensions := by
  obtain ⟨r, -, hr⟩ := createConfiguration_eq_ok h
  exact Configurations.mem_extensions_runSetup hr hp

theorem extends_of_extendConfiguration {child parent : String} (h : extendConfiguration child parent p = .ok u q) :
    (child, parent) ∈ q.configurations.extensions := by
  obtain ⟨r, hr, rfl⟩ := onConfigurations_eq_ok h
  obtain ⟨-, -, -, -, rfl⟩ := Configurations.extend_eq_ok hr
  exact Digraph.mem_connect.mpr (.inr rfl)

/-- Files that were added are declared, or equal ones were before. -/
theorem declares_of_addDependency {files : FileCollection} {e : FileElement} (he : e ∈ files.elements)
    (h : addDependency name (.files files) p = .ok u q) : q.Declares name e := by
  obtain ⟨r, hr, rfl⟩ := onConfigurations_eq_ok h
  obtain ⟨c, hc⟩ := Configurations.exists_find?_iff.mpr (Configurations.mem_of_update hr)
  obtain ⟨d, hd, hbeq⟩ := Distinct.exists_beq_of_add c.dependencies (.files files)
  obtain ⟨files', rfl, helements⟩ := Dependency.exists_files_of_beq hbeq
  obtain ⟨e', he', hee'⟩ := Distinct.exists_beq_of_beq helements he
  have hfind : r.find? name = some { c with dependencies := Distinct.add c.dependencies (.files files) } := by
    rw [Configurations.update_eq_ok hr, Configurations.find?_updateAll (by intro _; rfl), if_pos rfl, hc]
    rfl
  exact ⟨files', Configurations.mem_declaredOn.mpr ⟨_, hfind, hd⟩, List.contains_iff_exists_mem_beq.mpr ⟨e', he', hee'⟩⟩

/-- A classpath that is changed lists what the change puts on it. -/
theorem lists_of_update {which : ClasspathKind} {e : FileElement} {f : SourceSet → SourceSet} (hs : p.Sound)
    (h : onSourceSets (·.update name f) p = .ok u q) (hf : ∀ s : SourceSet, ((f s).classpath which).contains e = true) :
    q.Lists which name e := by
  obtain ⟨r, hr, rfl⟩ := onSourceSets_eq_ok h
  obtain ⟨v, hv, rfl⟩ := SourceSets.update_eq_ok hr
  obtain ⟨s, hunit, -⟩ := hs.sourceSets.placed name v (SourceSets.mem_of_lookup hv)
  refine ⟨f s, ?_, hf s⟩
  show (p.sourceSets.updateUnit v f).find? name = some (f s)
  rw [SourceSets.find?_of_lookup (show (p.sourceSets.updateUnit v f).registered.lookup name = some v from hv)]
  show (p.sourceSets.units.modify v f)[v]? = some (f s)
  rw [List.getElem?_modify_eq, hunit]
  rfl

end ConfigM

namespace Project

/-! ## The links -/

/-- The classpaths of a source set lead to its output and to its configurations. -/
structure Outfitted (p : Project) (name : String) : Prop where
  compile : p.Lists .compile name (.configuration (compileClasspath name))
  output : p.Lists .runtime name (.output name)
  runtime : p.Lists .runtime name (.configuration (runtimeClasspath name))
  compileImplementation : (compileClasspath name, implementation name) ∈ p.configurations.extensions
  runtimeOnly : (runtimeClasspath name, SourceSetName.runtimeOnly name) ∈ p.configurations.extensions
  runtimeImplementation : (runtimeClasspath name, implementation name) ∈ p.configurations.extensions

/-- The source sets of the Java conventions, the tests running with the output of `main`. -/
structure JavaConventions (p : Project) : Prop where
  main : p.Outfitted SourceSetName.main
  test : p.Outfitted SourceSetName.test
  output : p.Lists .runtime SourceSetName.test (.output SourceSetName.main)

/-- `existing` runs with the output of `derived`. -/
structure Derived (p : Project) (derived existing : String) : Prop where
  outfitted : p.Outfitted derived
  output : p.Lists .runtime existing (.output derived)

/-- The processing classpath extends what the runtime classpath of `input` extends. -/
structure Classpath (p : Project) (classpath input : String) : Prop where
  runtimeOnly : (classpath, SourceSetName.runtimeOnly input) ∈ p.configurations.extensions
  implementation : (classpath, SourceSetName.implementation input) ∈ p.configurations.extensions

/-- `derived` is compiled with `classpath`, which declares the outputs that are processed. Both source sets get the
    generated classes. -/
structure Wired (p : Project) (kind : ProcessingKind) (derived input classpath : String) : Prop where
  inputs : ∀ name ∈ kind.inputs input, p.Declares classpath (.output name)
  extension : (compileClasspath derived, classpath) ∈ p.configurations.extensions
  compiled : p.Declares (implementation derived) (.dir (generatedClasses derived))
  run : p.Lists .runtime input (.dir (generatedClasses derived))

variable {p q : Project} {name : String}

theorem Outfitted.grows (h : p.Outfitted name) (hq : p.Grows q) : q.Outfitted name :=
  ⟨hq.lists h.compile, hq.lists h.output, hq.lists h.runtime, hq.extensions h.compileImplementation,
    hq.extensions h.runtimeOnly, hq.extensions h.runtimeImplementation⟩

theorem JavaConventions.grows (h : p.JavaConventions) (hq : p.Grows q) : q.JavaConventions :=
  ⟨h.main.grows hq, h.test.grows hq, hq.lists h.output⟩

theorem Derived.grows {derived existing : String} (h : p.Derived derived existing) (hq : p.Grows q) :
    q.Derived derived existing := ⟨h.outfitted.grows hq, hq.lists h.output⟩

theorem Classpath.grows {classpath input : String} (h : p.Classpath classpath input) (hq : p.Grows q) :
    q.Classpath classpath input := ⟨hq.extensions h.runtimeOnly, hq.extensions h.implementation⟩

theorem Wired.grows {kind : ProcessingKind} {derived input classpath : String} (h : p.Wired kind derived input classpath)
    (hq : p.Grows q) : q.Wired kind derived input classpath :=
  ⟨fun name hn => hq.declares (h.inputs name hn), hq.extensions h.extension, hq.declares h.compiled, hq.lists h.run⟩

end Project

/-! ## Making the links -/

namespace ConfigM

variable {p q : Project} {name : String} {u : Unit}

theorem extensions_of_createSourceSetConfigurations (h : createSourceSetConfigurations name p = .ok u q) :
    (compileClasspath name, implementation name) ∈ q.configurations.extensions ∧
      (runtimeClasspath name, runtimeOnly name) ∈ q.configurations.extensions ∧
      (runtimeClasspath name, implementation name) ∈ q.configurations.extensions := by
  obtain ⟨q₁, q₂, q₃, q₄, -, -, -, hcompile, hruntime⟩ := createSourceSetConfigurations_ok h
  refine ⟨?_, extends_of_createConfiguration hruntime ?_, extends_of_createConfiguration hruntime ?_⟩
  · exact ((evolves_createConfiguration _ _).of_ok hruntime).mem_extensions
      (extends_of_createConfiguration hcompile (by simp [compileClasspathSetup]))
  · simp [runtimeClasspathSetup]
  · simp [runtimeClasspathSetup]

/-- A source set that is created is outfitted by convention. -/
theorem outfitted_of_createSourceSet (h : createSourceSet name p = .ok u q) : q.Outfitted name := by
  obtain ⟨q₁, q₂, h₁, hnew, -, hq₂, rfl⟩ := createSourceSet_ok h
  obtain ⟨hcompile, hruntime, himplementation⟩ := extensions_of_createSourceSetConfigurations h₁
  have hfind : (q₂.sourceSets.register name q₁.sourceSets.nextUnit).find? name = some (conventionalSourceSet name) := by
    rw [hq₂]
    exact SourceSets.find?_register_layOut hnew _
  have hextensions : q₂.configurations.extensions = q₁.configurations.extensions := by rw [hq₂]
  rw [← hextensions] at hcompile hruntime himplementation
  refine ⟨⟨_, hfind, FileCollection.contains_of _⟩, ⟨_, hfind, ?_⟩, ⟨_, hfind, ?_⟩, hcompile, hruntime, himplementation⟩
  · exact FileCollection.contains_plus_left (FileCollection.contains_of _) _
  · exact FileCollection.contains_plus_right (FileCollection.contains_of _) _

theorem javaConventions_of_apply (hs : p.Sound) (h : applyJavaConventions p = .ok u q) : q.JavaConventions := by
  unfold applyJavaConventions at h
  obtain ⟨_, q₁, h₁, h⟩ := bind_ok h
  obtain ⟨_, q₂, h₂, h⟩ := bind_ok h
  obtain ⟨_, q₃, h₃, h⟩ := bind_ok h
  obtain ⟨_, q₄, h₄, h₅⟩ := bind_ok h
  have hq₁ := (grows_acting.createSourceSet main p).of_ok h₁
  have hq₂ := (grows_acting.createSourceSet test q₁).of_ok h₂
  have hq₃ := grows_of_update h₃ (fun _ => rfl) widens_testConventions
  have hq₅ : q₃.Grows q := ((grows_acting.extendConfiguration _ _ q₃).of_ok h₄).trans
    ((grows_acting.extendConfiguration _ _ q₄).of_ok h₅)
  have hs₂ : q₂.Sound := hs.evolves (hq₁.trans hq₂).evolves
  have houtput : q₃.Lists .runtime test (.output main) :=
    lists_of_update hs₂ h₃ fun _ => FileCollection.contains_add_self _ _
  exact ⟨(outfitted_of_createSourceSet h₁).grows (hq₂.trans (hq₃.trans hq₅)),
    (outfitted_of_createSourceSet h₂).grows (hq₃.trans hq₅), hq₅.lists houtput⟩

theorem derived_of_deriveSourceSet {existing : String} (hs : p.Sound) (h : deriveSourceSet name existing p = .ok u q) :
    q.Derived name existing := by
  obtain ⟨s, q₁, q₂, q₃, -, h₁, h₂, h₃, h₄⟩ := deriveSourceSet_ok h
  have hq₁ := (grows_acting.createSourceSet name _).of_ok h₁
  have hq₂ := grows_of_update h₂ (fun _ => rfl) fun _ => .of_eq rfl rfl
  have hq₃ := grows_of_update h₃ (fun _ => rfl) fun s => s.widens_addRuntime _
  have hq₄ : q₃.Grows q := (grows_acting.editConfiguration _ (.attributes requestClassesAndResources) q₃).of_ok h₄
  have hs₂ : q₂.Sound := hs.evolves (hq₁.trans hq₂).evolves
  have houtput : q₃.Lists .runtime existing (.output name) :=
    lists_of_update hs₂ h₃ fun _ => FileCollection.contains_add_self _ _
  exact ⟨(outfitted_of_createSourceSet h₁).grows (hq₂.trans (hq₃.trans hq₄)), hq₄.lists houtput⟩

theorem classpath_of_createProcessingClasspath {task input created : String} (hs : p.Sound) (hinput : p.Outfitted input)
    (h : createProcessingClasspath task input p = .ok created q) : q.Classpath (task ++ "Classpath") input := by
  obtain ⟨-, base, -, hcreate⟩ := createProcessingClasspath_ok hs.sourceSets h
  have hextends : ∀ parent, (runtimeClasspath input, parent) ∈ p.configurations.extensions →
      (task ++ "Classpath", parent) ∈ q.configurations.extensions := by
    intro parent he
    refine extends_of_createConfiguration hcreate ?_
    have hparent : parent ∈ p.configurations.graph.successors (runtimeClasspath input) := Digraph.mem_successors.mpr he
    simp [processingClasspathSetup, hparent]
  exact ⟨hextends _ hinput.runtimeOnly, hextends _ hinput.runtimeImplementation⟩

theorem declares_of_declareProcessingInput {kind : ProcessingKind} {input classpath : String}
    (h : declareProcessingInput kind input classpath p = .ok u q) :
    ∀ name ∈ kind.inputs input, q.Declares classpath (.output name) := by
  unfold declareProcessingInput at h
  cases kind with
  | application =>
    intro name hn
    cases List.mem_singleton.mp hn
    exact declares_of_addDependency (List.mem_cons_self ..) h
  | tests main =>
    obtain ⟨_, q₁, h₁, h₂⟩ := bind_ok h
    have hq := (grows_acting.addDependency _ _ q₁).of_ok h₂
    have hmain : q₁.Declares classpath (.output main) := declares_of_addDependency (List.mem_cons_self ..) h₁
    have hinput : q.Declares classpath (.output input) := declares_of_addDependency (List.mem_cons_self ..) h₂
    simp only [ProcessingKind.inputs, List.forall_mem_cons]
    exact ⟨hq.declares hmain, hinput, by simp⟩

theorem wired_of_wireProcessingTask {kind : ProcessingKind} {derived input classpath name : String}
    {outputs : ProcessingOutputs} (hs : p.Sound) (houtputs : outputs.classesDir = generatedClasses derived)
    (h : wireProcessingTask kind derived input classpath outputs p = .ok name q) : q.Wired kind derived input classpath := by
  obtain ⟨-, s, q₁, q₂, q₃, q₄, q₅, q₆, -, h₁, h₂, h₃, h₄, h₅, h₆, h₇⟩ := wireProcessingTask_ok h
  have hq₁ : p.Grows q₁ := (grows_acting.declareProcessingInput kind input classpath p).of_ok h₁
  have hq₂ := grows_of_update h₂ (fun _ => rfl) fun s => s.widens_addRuntime _
  have hq₃ : q₂.Grows q₃ := (grows_acting.extendConfiguration _ _ q₂).of_ok h₃
  have hq₄ : q₃.Grows q₄ := ⟨(evolves_registerProcessingTask ..).of_ok h₄, (widens_registerProcessingTask _ _ _ _ _ q₃).of_ok h₄⟩
  have hq₅ : q₄.Grows q₅ := (grows_acting.addDependency _ _ q₄).of_ok h₅
  have hrun : q₂.Lists .runtime input (.dir outputs.classesDir) :=
    lists_of_update (hs.evolves hq₁.evolves) h₂ fun _ => FileCollection.contains_add_self _ _
  have hcompiled : q₅.Declares (implementation derived) (.dir outputs.classesDir) :=
    declares_of_addDependency (List.mem_cons_self ..) h₅
  have hgrown := hq₃.trans (hq₄.trans hq₅)
  rw [houtputs] at hrun hcompiled
  have hwired : q₅.Wired kind derived input classpath :=
    ⟨fun name hn => (hq₂.trans hgrown).declares (declares_of_declareProcessingInput h₁ name hn),
      (hq₄.trans hq₅).extensions (extends_of_extendConfiguration h₃), hcompiled, hgrown.lists hrun⟩
  -- the order of the tasks is of no concern
  cases h₆
  cases h₇
  exact ⟨hwired.inputs, hwired.extension, hwired.compiled, hwired.run⟩

end ConfigM

namespace Project

variable {p : Project} {es : List FileElement} {e : FileElement} {name : String} {c : FileCollection} {paths : List Path}

/-! ## What is resolved -/

/-- Something equal to `e` is met. -/
def Offers (p : Project) (es : List FileElement) (e : FileElement) : Prop := ∃ e', Meets p es e' ∧ (e == e') = true

/-- The places of the output of the source set `name` are among `paths`. -/
def HasOutput (p : Project) (paths : List Path) (name : String) : Prop :=
  ∃ s, p.sourceSets.get name = .ok s ∧
    ∀ l ∈ s.output.classesDirs ++ [s.output.resourcesDir], paths.contains (p.layout.resolve l) = true

/-- The directories in files declared on `name`, or on anything it extends, are among `paths`. -/
def HasDeclared (p : Project) (paths : List Path) (name : String) : Prop :=
  ∃ names, p.configurations.hierarchy name = .ok names ∧
    ∀ other ∈ names, ∀ files, .files files ∈ p.configurations.declaredOn other → ∀ l, .dir l ∈ files.elements →
      paths.contains (p.layout.resolve l) = true

namespace Offers

theorem of_meets (h : Meets p es e) : Offers p es e := ⟨e, h, BEq.rfl⟩

theorem of_contains (h : es.contains e = true) : Offers p es e := by
  obtain ⟨e', he', hbeq⟩ := List.contains_iff_exists_mem_beq.mp h
  exact ⟨e', .element he', hbeq⟩

/-- Configurations are told apart by their names. -/
theorem meets (h : Offers p es (.configuration name)) : Meets p es (.configuration name) := by
  obtain ⟨e', he', hbeq⟩ := h
  rcases FileElement.beq_cases hbeq with rfl | ⟨l, m, hl, -⟩
  · exact he'
  · cases hl

theorem inherits {parent : String} (h : Offers p es (.configuration name))
    (he : (name, parent) ∈ p.configurations.extensions) : Offers p es (.configuration parent) :=
  of_meets (.inherits h.meets he)

theorem declared (h : Offers p es (.configuration name)) (hd : p.Declares name e) : Offers p es e := by
  obtain ⟨files, hfiles, he⟩ := hd
  obtain ⟨e', he', hbeq⟩ := List.contains_iff_exists_mem_beq.mp he
  obtain ⟨c, hc, hfiles⟩ := Configurations.mem_declaredOn.mp hfiles
  exact ⟨e', .declared h.meets hc hfiles he', hbeq⟩

theorem of_lists {which : ClasspathKind} {s : SourceSet} (h : p.Lists which name e) (hs : p.sourceSets.find? name = some s) :
    Offers p (s.classpath which).elements e := by
  obtain ⟨t, ht, he⟩ := h
  cases hs.symm.trans ht
  exact of_contains he

theorem contains_dir (hp : p.Reachable) (hpaths : p.resolveFiles c = .ok paths) {l : Location}
    (h : Offers p c.elements (.dir l)) : paths.contains (p.layout.resolve l) = true := by
  obtain ⟨e', he', hbeq⟩ := h
  refine (((hp.resolveFiles_exact c).2.2 paths hpaths).2 _).mpr (.inl ?_)
  rcases FileElement.beq_cases hbeq with rfl | ⟨l', m, hl, rfl, hlm⟩
  · exact ⟨l, he', BEq.rfl⟩
  · cases hl
    exact ⟨m, he', p.layout.resolve_congr hlm⟩

theorem hasOutput (hp : p.Reachable) (hpaths : p.resolveFiles c = .ok paths) (h : Offers p c.elements (.output name)) :
    p.HasOutput paths name := by
  obtain ⟨e', he', hbeq⟩ := h
  rcases FileElement.beq_cases hbeq with rfl | ⟨l', m, hl, -⟩
  · obtain ⟨-, hok, hexact⟩ := hp.resolveFiles_exact c
    obtain ⟨s, hs⟩ := hp.sound.sourceSets.exists_find?_iff.mpr ((hok.mp ⟨paths, hpaths⟩).1 name he')
    refine ⟨s, SourceSets.get_of_find? hs, fun l hl => ?_⟩
    exact ((hexact paths hpaths).2 _).mpr (.inr ⟨name, s, he', hs, l, hl, BEq.rfl⟩)
  · cases hl

theorem hasDeclared (hp : p.Reachable) (hpaths : p.resolveFiles c = .ok paths)
    (h : Offers p c.elements (.configuration name)) : p.HasDeclared paths name := by
  have hn : name ∈ p.configurations.names := ((hp.resolveFiles_exact c).2.1.mp ⟨paths, hpaths⟩).2 name h.meets
  refine ⟨_, if_pos (Configurations.contains_iff.mpr hn), fun other hother files hfiles l hl => ?_⟩
  have hmet : Meets p c.elements (.configuration other) := by
    rcases p.configurations.graph.mem_preorder.mp hother with rfl | hreaches
    · exact h.meets
    · exact h.meets.reaches hreaches
  obtain ⟨d, hd, hfiles⟩ := Configurations.mem_declaredOn.mp hfiles
  exact contains_dir hp hpaths (of_meets (.declared hmet hd hfiles hl))

end Offers

/-- Whatever the classpaths that have to do with processing are resolved to. -/
structure Supplies (p : Project) (kind : ProcessingKind) (input : String) : Prop where
  /-- The generated code is compiled with what is processed, with the generated classes, and with what is declared for
      processing. -/
  compiled : ∃ s, p.sourceSets.get kind.derived = .ok s ∧ ∀ paths, p.resolveFiles s.compileClasspath = .ok paths →
    (∀ name ∈ kind.inputs input, p.HasOutput paths name) ∧
      paths.contains (p.layout.resolve (generatedClasses kind.derived)) = true ∧ p.HasDeclared paths kind.classpath
  /-- What is declared for running `input` is declared for processing. -/
  extended : ∃ parents, p.configurations.extendsOf kind.classpath = .ok parents ∧
    SourceSetName.runtimeOnly input ∈ parents ∧ SourceSetName.implementation input ∈ parents
  /-- What is processed runs with the generated code, with the generated classes, and with what is declared for running
      it. -/
  run : ∃ s, p.sourceSets.get input = .ok s ∧ ∀ paths, p.resolveFiles s.runtimeClasspath = .ok paths →
    (∀ name ∈ kind.inputs input, p.HasOutput paths name) ∧ p.HasOutput paths kind.derived ∧
      paths.contains (p.layout.resolve (generatedClasses kind.derived)) = true ∧
      p.HasDeclared paths (runtimeClasspath input)

/-- All links that processing `input` makes are in place. -/
structure Processed (p : Project) (kind : ProcessingKind) (input : String) : Prop where
  outputs : ∀ name ∈ kind.inputs input, p.Lists .runtime input (.output name)
  outfitted : p.Outfitted input
  derived : p.Derived kind.derived input
  classpath : p.Classpath kind.classpath input
  wired : p.Wired kind kind.derived input kind.classpath

theorem Processed.supplies {kind : ProcessingKind} {input : String} (h : p.Processed kind input) (hp : p.Reachable) :
    p.Supplies kind input := by
  refine ⟨?_, ?_, ?_⟩
  · obtain ⟨s, hs, hlists⟩ := h.derived.outfitted.compile
    refine ⟨s, SourceSets.get_of_find? hs, fun paths hpaths => ?_⟩
    have hcompile : Offers p s.compileClasspath.elements (.configuration (compileClasspath kind.derived)) :=
      .of_contains hlists
    have hclasspath := hcompile.inherits h.wired.extension
    have himplementation := hcompile.inherits h.derived.outfitted.compileImplementation
    refine ⟨fun name hn => ?_, ?_, hclasspath.hasDeclared hp hpaths⟩
    · exact (hclasspath.declared (h.wired.inputs name hn)).hasOutput hp hpaths
    · exact (himplementation.declared h.wired.compiled).contains_dir hp hpaths
  · have hn : kind.classpath ∈ p.configurations.names :=
      hp.sound.configurations.sound.source _ _ h.classpath.runtimeOnly
    refine ⟨_, if_pos (Configurations.contains_iff.mpr hn), ?_, ?_⟩
    · exact Digraph.mem_successors.mpr h.classpath.runtimeOnly
    · exact Digraph.mem_successors.mpr h.classpath.implementation
  · obtain ⟨s, hs, hlists⟩ := h.outfitted.runtime
    refine ⟨s, SourceSets.get_of_find? hs, fun paths hpaths => ?_⟩
    refine ⟨fun name hn => ?_, ?_, ?_, Offers.hasDeclared hp hpaths (.of_contains hlists)⟩
    · exact Offers.hasOutput hp hpaths (.of_lists (h.outputs name hn) hs)
    · exact Offers.hasOutput hp hpaths (.of_lists h.derived.output hs)
    · exact Offers.contains_dir hp hpaths (.of_lists h.wired.run hs)

end Project

end BuildGraph

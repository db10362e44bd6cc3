/-
  BuildGraph.Proofs.Project.WiringEffect: what wiring a processing task does to a project, and nothing else.

  Wiring goes through all three registries. What it declares on a configuration is told by the name of the
  configuration (`declares`), so that it does not matter whether the processing classpath is a configuration of
  its own or the one that the derived source set takes its implementation from. The processing task itself is
  registered blank, with one change to fill it in (`task`), and nothing that happens until it is realized makes a
  difference to what it is filled with.

  - `Reachable.wireProcessingTask_effect`: the project that wiring leaves, and the body the processing task is
    realized with.
-/

import BuildGraph.Proofs.Project.Conventional
import BuildGraph.Proofs.Project.Parts
import BuildGraph.Proofs.Project.ProcessingTask
import BuildGraph.Proofs.Project.Supply

namespace BuildGraph

open Operation Project SourceSetName

/-! ## Declaring on several configurations -/

namespace Configurations

variable {r s : Configurations} {name : String} {d : Dependency}

/-- Declares on each configuration what `ds` has for its name. -/
def declareAll (r : Configurations) (ds : String → List Dependency) : Configurations :=
  { r with entries := r.entries.map fun c => { c with dependencies := Distinct.addAll c.dependencies (ds c.name) } }

theorem declareAll_declareAll (r : Configurations) (ds es : String → List Dependency) :
    (r.declareAll ds).declareAll es = r.declareAll fun name => ds name ++ es name := by
  simp [declareAll, Function.comp_def, Distinct.addAll_append]

theorem find?_declareAll (r : Configurations) (ds : String → List Dependency) (name : String) :
    (r.declareAll ds).find? name =
      (r.find? name).map fun c => { c with dependencies := Distinct.addAll c.dependencies (ds name) } := by
  refine (Named.find?_map (by exact fun _ => rfl) name).trans (Option.map_congr fun c hc => ?_)
  rw [name_of_find? (r := r) hc]

theorem addDependency_eq_ok (h : r.addDependency name d = .ok s) :
    s = r.declareAll fun other => if other = name then [d] else [] := by
  rw [update_eq_ok h]
  unfold updateAll declareAll
  congr 1
  refine List.map_congr_left fun c _ => ?_
  by_cases hc : c.name = name <;> simp [hc]

end Configurations

/-! ## The parts of wiring -/

namespace ProcessingKind

/-- The files a processing task is to find on its classpath. -/
def inputFiles (kind : ProcessingKind) (input : String) : List Dependency :=
  (kind.inputs input).map fun name => .files (.output name)

/-- What wiring declares on the configuration called `name`, in this order. -/
def declares (kind : ProcessingKind) (derived input classpath : String) (classesDir : Location) (name : String) :
    List Dependency :=
  (if name = classpath then kind.inputFiles input else []) ++
    if name = implementation derived then [.files (.dir classesDir)] else []

/-- The lazy values a processing task of the project `name` refers to. -/
def values (kind : ProcessingKind) (name : String) : List Provider :=
  [{ thunk := .group }, { thunk := .compute fun _ => name }] ++
    match kind with
    | .application => [{ thunk := .fromTask ConfigM.mainClassTask TaskBody.mainClass }]
    | .tests _ => []

/-- Fills in a processing task whose lazy values are numbered from `first`. -/
def fill (kind : ProcessingKind) (input : String) (first : ProviderId) (spec : ProcessingSpec) : Change :=
  match kind with
  | .application => .processAot fun t => { t with spec := spec, applicationClass := some (first + 2) }
  | .tests _ => .processTestAot fun t => { t with spec := spec, testRuntimeClasspath := some (implementation input) }

/-- The processing task as it is registered. -/
def task (kind : ProcessingKind) (input : String) (first : ProviderId) (spec : ProcessingSpec) : Task where
  name := kind.taskName
  body := .blank kind.taskKind
  pending := [.change (kind.fill input first spec)]

/-- The processing task filled in. -/
def body (kind : ProcessingKind) (input : String) (first : ProviderId) (spec : ProcessingSpec) : TaskBody :=
  match kind with
  | .application => .processAot { spec := spec, applicationClass := some (first + 2) }
  | .tests _ => .processTestAot { spec := spec, testRuntimeClasspath := some (implementation input) }

variable (kind : ProcessingKind) (input : String) (first : ProviderId) (spec : ProcessingSpec)

theorem apply_fill : (kind.fill input first spec).apply (.blank kind.taskKind) = kind.body input first spec := by
  cases kind <;> rfl

/-- What a processing task lacks, if anything, is in what both kinds have in common. -/
theorem missingInput_body : (kind.body input first spec).missingInput = spec.missingInput := by
  cases kind <;> simp [body, TaskBody.missingInput]

end ProcessingKind

namespace ConfigM

variable {p q : Project} {kind : ProcessingKind} {input classpath : String} {outputs : ProcessingOutputs}

/-- All that is asked of a processing task is there but the classes to process, which may be none. -/
theorem missingInput_processingSpec_roots (groupId artifactId : ProviderId) (o : SourceSetOutput) :
    (processingSpec outputs groupId artifactId o.roots classpath).missingInput =
      if o.classesDirs = [] then some "classpathRoots" else none := by
  split
  · rename_i hnone
    rw [SourceSetOutput.roots, hnone]
    rfl
  · rename_i hsome
    exact missingInput_processingSpec _ _ _ (isEmpty_ofList fun h => hsome (List.map_eq_nil_iff.mp h)) _

theorem addDependency_ok {configuration : String} {d : Dependency} {u : Unit}
    (h : addDependency configuration d p = .ok u q) :
    q = { p with configurations := p.configurations.declareAll fun name => if name = configuration then [d] else [] } := by
  obtain ⟨r, hr, rfl⟩ := onConfigurations_eq_ok h
  rw [Configurations.addDependency_eq_ok hr]

theorem declareProcessingInput_ok {u : Unit} (h : declareProcessingInput kind input classpath p = .ok u q) :
    q = { p with
      configurations := p.configurations.declareAll fun name => if name = classpath then kind.inputFiles input else [] } := by
  unfold declareProcessingInput at h
  cases kind with
  | application => exact addDependency_ok h
  | tests main =>
    obtain ⟨_, q₁, h₁, h₂⟩ := bind_ok h
    rw [addDependency_ok h₂, addDependency_ok h₁]
    dsimp only
    rw [Configurations.declareAll_declareAll]
    congr 2
    funext name
    split <;> rfl

/-- A processing task is registered under a new name, and its lazy values come after those that are there. -/
theorem registerProcessingTask_ok {roots : FileCollection} {u : Unit}
    (h : registerProcessingTask kind input classpath roots outputs p = .ok u q) :
    kind.taskName ∉ p.tasks.names ∧ q = { p with
      tasks := { p.tasks with
        entries := p.tasks.entries ++ [kind.task input p.nextProvider
          (processingSpec outputs p.nextProvider (p.nextProvider + 1) roots classpath)] }
      providers := p.providers ++ kind.values p.name } := by
  unfold registerProcessingTask at h
  rw [bind_of_ok (get_apply p)] at h
  cases kind with
  | _ =>
    obtain ⟨_, q₁, h₁, h₂⟩ := bind_ok h
    obtain ⟨r, hr, rfl⟩ := onTasks_eq_ok h₁
    obtain ⟨hnew, rfl⟩ := Tasks.register_eq_ok hr
    cases h₂
    exact ⟨hnew, rfl⟩

/-- The project that wiring leaves. -/
theorem wireProcessingTask_result {derived task : String}
    (h : wireProcessingTask kind derived input classpath outputs p = .ok task q) :
    task = kind.taskName ∧ task ∉ p.tasks.names ∧ ∃ u s, p.sourceSets.unitOf? input = some u ∧
      p.sourceSets.find? input = some s ∧ q = { p with
        sourceSets := p.sourceSets.updateUnit u fun s =>
          { s with runtimeClasspath := s.runtimeClasspath.add (.dir outputs.classesDir) }
        configurations :=
          { p.configurations.declareAll (kind.declares derived input classpath outputs.classesDir) with
            extensions := Digraph.connect p.configurations.extensions (SourceSetName.compileClasspath derived) classpath }
        tasks :=
          { entries := p.tasks.entries ++ [kind.task input p.nextProvider
              (processingSpec outputs p.nextProvider (p.nextProvider + 1) s.output.roots classpath)]
            edges := Digraph.connect (Digraph.connect p.tasks.edges task (compileJava derived)) task
              (processResources derived) }
        providers := p.providers ++ kind.values p.name } := by
  obtain ⟨rfl, s, q₁, q₂, q₃, q₄, q₅, q₆, hparts, h₁, h₂, h₃, h₄, h₅, h₆, h₇⟩ := wireProcessingTask_ok h
  obtain ⟨-, -, -, -, hs, -⟩ := requireProcessingParts_eq_ok hparts
  have hq₁ := declareProcessingInput_ok h₁
  obtain ⟨_, hupdate, hq₂⟩ := onSourceSets_eq_ok h₂
  obtain ⟨u, hu, rfl⟩ := SourceSets.update_eq_ok hupdate
  obtain ⟨_, hextend, hq₃⟩ := onConfigurations_eq_ok h₃
  obtain ⟨-, -, -, -, rfl⟩ := Configurations.extend_eq_ok hextend
  obtain ⟨hnew, hq₄⟩ := registerProcessingTask_ok h₄
  have hq₅ := addDependency_ok h₅
  cases h₆
  cases h₇
  clear h₁ h₂ h₃ h₄ h₅ h hparts hupdate hextend
  subst hq₁ hq₂ hq₃ hq₄ hq₅
  dsimp only at hnew hu ⊢
  refine ⟨rfl, hnew, u, s, hu, SourceSets.get_eq_ok hs, ?_⟩
  have hdeclared : (p.configurations.declareAll fun name => if name = classpath then kind.inputFiles input else []).declareAll
        (fun name => if name = SourceSetName.implementation derived then [.files (.dir outputs.classesDir)] else []) =
      p.configurations.declareAll (kind.declares derived input classpath outputs.classesDir) :=
    p.configurations.declareAll_declareAll _ _
  rw [← hdeclared]
  rfl

end ConfigM

/-- A task added under a new name is found. -/
theorem Tasks.find?_snoc {r : Tasks} {t : Task} (hnew : t.name ∉ r.names) (edges : List (String × String)) :
    Tasks.find? { entries := r.entries ++ [t], edges := edges } t.name = some t :=
  (Named.find?_concat hnew t.name).trans (if_pos rfl)

/-- Dependencies on a task that is not registered are new. -/
theorem Tasks.Sound.connect_new {r : Tasks} {name : String} (h : r.Sound) (hnew : name ∉ r.names) (a b : String)
    (hne : a ≠ b) : Digraph.connect (Digraph.connect r.edges name a) name b = r.edges ++ [(name, a), (name, b)] := by
  have hfirst : Digraph.connect r.edges name a = r.edges ++ [(name, a)] := if_neg fun he => hnew (h.source _ _ he)
  have hsecond : (name, b) ∉ r.edges ++ [(name, a)] := by
    rw [List.mem_append, List.mem_singleton]
    rintro (he | he)
    · exact hnew (h.source _ _ he)
    · exact hne (Prod.mk.inj he).2.symm
  rw [hfirst, Digraph.connect, if_neg hsecond, List.append_assoc]
  rfl

/-- Changing one source set leaves those of other names as they are. -/
theorem SourceSets.Sound.find?_updateUnit {r : SourceSets} {name : String} {u : UnitId} {s : SourceSet} (h : r.Sound)
    (hu : r.unitOf? name = some u) (hs : r.find? name = some s) (f : SourceSet → SourceSet) (other : String) :
    (r.updateUnit u f).find? other = if other = name then some (f s) else r.find? other := by
  have hat : r.units[u]? = some s := (find?_of_lookup hu).symm.trans hs
  split
  · rename_i he
    rw [he]
    exact find?_of_update hs (by rw [update, hu])
  rename_i hne
  cases hv : r.unitOf? other with
  | none => rw [find?, find?, show (r.updateUnit u f).unitOf? other = none from hv, hv]; rfl
  | some v =>
    -- a place is registered under the name of the source set that was laid out there
    have hapart : u ≠ v := by
      rintro rfl
      obtain ⟨t, ht, hother⟩ := h.placed other u (mem_of_lookup hv)
      rw [hat] at ht
      cases ht
      exact hne (hother.symm.trans (h.name_of_find? hs))
    rw [find?_of_lookup (show (r.updateUnit u f).registered.lookup other = some v from hv), find?_of_lookup hv]
    show (r.units.modify u f)[v]? = _
    simp [hapart]

namespace Project

variable {p q : Project} {kind : ProcessingKind} {derived input classpath task : String} {outputs : ProcessingOutputs}

/-- Wiring registers the processing task and makes two tasks of the derived source set wait for it; it declares the
    inputs on the processing classpath and the classes directory on the implementation of the derived source set, lets
    the compile classpath of this extend the processing classpath, and puts the classes directory on the runtime
    classpath of the input. Whenever the task is realized as it was registered, it is filled in with what it was
    wired for, and lacks nothing but the classes to process if the input compiled to no directory at that time. -/
theorem Reachable.wireProcessingTask_effect (h : p.Reachable)
    (hok : ConfigM.wireProcessingTask kind derived input classpath outputs p = .ok task q) :
    ∃ u s spec t, p.sourceSets.unitOf? input = some u ∧ p.sourceSets.find? input = some s ∧
      spec = ConfigM.processingSpec outputs p.nextProvider (p.nextProvider + 1) s.output.roots classpath ∧
      task = kind.taskName ∧ task ∉ p.tasks.names ∧ t.name = task ∧ t.body.kind = kind.taskKind ∧ t.realized = false ∧
      q = { p with
        sourceSets := p.sourceSets.updateUnit u fun s =>
          { s with runtimeClasspath := s.runtimeClasspath.add (.dir outputs.classesDir) }
        configurations :=
          { p.configurations.declareAll (kind.declares derived input classpath outputs.classesDir) with
            extensions := Digraph.connect p.configurations.extensions (compileClasspath derived) classpath }
        tasks :=
          { entries := p.tasks.entries ++ [t]
            edges := p.tasks.edges ++ [(task, compileJava derived), (task, processResources derived)] }
        providers := p.providers ++ kind.values p.name } ∧
      (∀ name, q.sourceSets.find? name = if name = input
        then some { s with runtimeClasspath := s.runtimeClasspath.add (.dir outputs.classesDir) }
        else p.sourceSets.find? name) ∧
      (∀ name, q.configurations.find? name = (p.configurations.find? name).map fun c =>
        { c with
          dependencies :=
            Distinct.addAll c.dependencies (kind.declares derived input classpath outputs.classesDir name) }) ∧
      ∀ r, r.tasks.find? task = q.tasks.find? task →
        (∃ r', ConfigM.realize task r = .ok (kind.body input p.nextProvider spec) r') ∧
        (kind.body input p.nextProvider spec).missingInput =
          if s.output.classesDirs = [] then some "classpathRoots" else none := by
  obtain ⟨rfl, hnew, u, s, hu, hs, hq⟩ := ConfigM.wireProcessingTask_result hok
  have hsound := h.sound
  rw [hsound.tasks.connect_new hnew _ _ (compileJava_ne_processResources derived derived)] at hq
  refine ⟨u, s, _, _, hu, hs, rfl, rfl, hnew, rfl, TaskBody.kind_blank _, rfl, hq, fun name => ?_, fun name => ?_,
    fun r hr => ⟨?_, ?_⟩⟩
  · rw [hq]
    exact hsound.sourceSets.find?_updateUnit hu hs _ name
  · rw [hq]
    exact Configurations.find?_declareAll _ _ name
  · rw [hq] at hr
    have ht := hr.trans (Tasks.find?_snoc (t := kind.task input p.nextProvider _) hnew _)
    obtain ⟨r', hrealize⟩ := ConfigM.realize_of_one ht rfl rfl trivial
    rw [← kind.apply_fill]
    exact ⟨r', hrealize⟩
  · rw [kind.missingInput_body]
    exact ConfigM.missingInput_processingSpec_roots _ _ s.output

/-- The implementation of the derived source set may serve as the processing classpath. The inputs are declared on it
    before the classes directory, and the processing task lacks nothing. -/
theorem wireProcessingTask_effect_of_one_classpath :
    ∃ p q body r, p.Reachable ∧ ConfigM.wireProcessingTask (.tests "main") "aotTest" "test" "aotTestImplementation"
        ⟨.project ⟨"sources"⟩, .project ⟨"resources"⟩, .project ⟨"classes"⟩⟩ p = .ok "processTestAot" q ∧
      q.tasks.edges = p.tasks.edges ++
        [("processTestAot", "compileAotTestJava"), ("processTestAot", "processAotTestResources")] ∧
      (q.configurations.find? "aotTestImplementation").map (·.dependencies) =
        some [.files (.output "main"), .files (.output "test"), .files (.dir (.project ⟨"classes"⟩))] ∧
      ConfigM.realize "processTestAot" q = .ok body r ∧ body.missingInput = none := by
  obtain ⟨p, q, hp, hq, hdirs, hbefore⟩ : ∃ p q, p.Reachable ∧
      ConfigM.wireProcessingTask (.tests "main") "aotTest" "test" "aotTestImplementation"
        ⟨.project ⟨"sources"⟩, .project ⟨"resources"⟩, .project ⟨"classes"⟩⟩ p = .ok "processTestAot" q ∧
      (p.sourceSets.find? "test").map (·.output.classesDirs) = some [.build ⟨"classes/java/test"⟩] ∧
      (p.configurations.find? "aotTestImplementation").map (·.dependencies) = some [] :=
    ⟨_, _, Session.performAll_reachable {} [Plugin.java.step, .act (.sourceSet (.derive "aotTest" "test"))], rfl, rfl, rfl⟩
  obtain ⟨u, s, spec, t, -, hs, -, -, -, -, -, -, hresult, -, hdeclared, hrealize⟩ :=
    Reachable.wireProcessingTask_effect hp hq
  obtain ⟨⟨r, hr⟩, hmissing⟩ := hrealize q rfl
  rw [hs, Option.map_some, Option.some.injEq] at hdirs
  obtain ⟨c, hc, hnone⟩ := Option.map_eq_some_iff.mp hbefore
  refine ⟨p, q, _, r, hp, hq, ?_, ?_, hr, ?_⟩
  · rw [hresult]
    rfl
  · rw [hdeclared, hc, Option.map_some, Option.map_some, hnone]
    rfl
  · rw [hmissing, hdirs]
    rfl

end Project

end BuildGraph

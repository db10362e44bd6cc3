/-
  BuildGraph.Proofs.Project.ProcessingTask: what a processing task is realized with.

  A compile task reads where its source set compiles to when it is realized. A processing task does not: where
  the classes of its input lie is read when it is wired, and kept in the change that is waiting for it. So the
  two agree only as long as the output of the input is left alone in between.

  - `Project.IsToProcess.realize` / `Project.AwaitsOutput.realize`: what the two kinds of tasks are realized
    with. The compile task of a new source set is of the second kind (`ConfigM.awaitsOutput_of_createSourceSet`).
  - `Project.wireProcessingTask_roots`: whatever the output of the input is changed to after wiring, the
    processing task gets the classes directories from before, and the compile task those from after.
  - `Project.a_later_output_is_not_processed`: a change that the processing task misses.
-/

import BuildGraph.Proofs.Project.SourceSetTask
import BuildGraph.Proofs.Script.Reachable

namespace BuildGraph

open Operation Project SourceSetName

/-- The classes directories of an output as the files a task is given. -/
def SourceSetOutput.roots (o : SourceSetOutput) : FileCollection := .ofList (o.classesDirs.map .dir)

/-- What a processing task processes. -/
def TaskBody.spec? : TaskBody → Option ProcessingSpec
  | .processAot t => some t.spec
  | .processTestAot t => some t.spec
  | _ => none

/-! ## Changing an output -/

namespace SourceSets

variable {r r' : SourceSets} {name : String} {s : SourceSet} {f : SourceSet → SourceSet}

theorem registered_of_update (h : r.update name f = .ok r') : r'.registered = r.registered := by
  obtain ⟨u, -, rfl⟩ := update_eq_ok h
  rfl

end SourceSets

namespace ConfigM

variable {p q : Project} {name : String} {s : SourceSet}

/-- Changes the output of a source set by one function after another. -/
def changeOutput (name : String) (changes : List (SourceSetOutput → SourceSetOutput)) : ConfigM Unit :=
  changes.forM fun f => onSourceSets (·.update name fun s => { s with output := f s.output })

/-- The changes add up, and nothing else changes. -/
theorem changeOutput_eq (hs : p.sourceSets.find? name = some s) (changes : List (SourceSetOutput → SourceSetOutput)) :
    ∃ r, changeOutput name changes p = .ok ⟨⟩ { p with sourceSets := r } ∧ r.registered = p.sourceSets.registered ∧
      r.find? name = some { s with output := changes.foldl (fun o f => f o) s.output } := by
  induction changes generalizing p s with
  | nil => exact ⟨p.sourceSets, rfl, rfl, hs⟩
  | cons f changes ih =>
    obtain ⟨r, hr⟩ := SourceSets.exists_update hs fun s => { s with output := f s.output }
    obtain ⟨r', hrest, hregistered, hfind⟩ := @ih { p with sourceSets := r } _ (SourceSets.find?_of_update hs hr)
    refine ⟨r', ?_, hregistered.trans (SourceSets.registered_of_update hr), hfind⟩
    show (onSourceSets _ >>= fun _ => changeOutput name changes) p = _
    rw [bind_of_ok (onSourceSets_ok hr), hrest]

end ConfigM

/-! ## Tasks that wait to be realized -/

namespace Project

variable {p q : Project} {name : String} {roots : FileCollection} {s : SourceSet} {j : JavaCompile}

/-- A processing task that is still to be realized, by one change that gives it the classes to process. -/
def IsToProcess (p : Project) (name : String) (roots : FileCollection) : Prop :=
  ∃ t c spec, p.tasks.find? name = some t ∧ t.realized = false ∧ t.pending = [.change c] ∧
    (c.apply t.body).spec? = some spec ∧ spec.classpathRoots = roots

/-- The compile task of the source set `name` is still to be realized, from what the source set is like by then. -/
def AwaitsOutput (p : Project) (name : String) (j : JavaCompile) : Prop :=
  ∃ t u, p.tasks.find? (compileJava name) = some t ∧ t.realized = false ∧ t.body = .javaCompile j ∧
    p.sourceSets.unitOf? name = some u ∧ t.pending = [.compileFrom u]

theorem IsToProcess.congr (h : p.IsToProcess name roots) (he : q.tasks.entries = p.tasks.entries) :
    q.IsToProcess name roots := by
  obtain ⟨t, c, spec, ht, hrest⟩ := h
  refine ⟨t, c, spec, ?_, hrest⟩
  rw [Tasks.find?, he]
  exact ht

theorem AwaitsOutput.congr (h : p.AwaitsOutput name j) (he : q.tasks.entries = p.tasks.entries)
    (hr : q.sourceSets.registered = p.sourceSets.registered) : q.AwaitsOutput name j := by
  obtain ⟨t, u, ht, hrealized, hbody, hu, hpending⟩ := h
  refine ⟨t, u, ?_, hrealized, hbody, ?_, hpending⟩
  · rw [Tasks.find?, he]
    exact ht
  · rw [SourceSets.unitOf?, hr]
    exact hu

/-- A processing task is realized with the classes it was given to process. -/
theorem IsToProcess.realize (h : p.IsToProcess name roots) :
    ∃ body spec q, ConfigM.realize name p = .ok body q ∧ body.spec? = some spec ∧ spec.classpathRoots = roots := by
  obtain ⟨t, c, spec, ht, hrealized, hpending, hspec, hroots⟩ := h
  obtain ⟨q, hq⟩ := ConfigM.realize_of_one ht hrealized hpending trivial
  exact ⟨_, spec, q, hq, hspec, hroots⟩

/-- A compile task is realized with where its source set compiles to at that time. -/
theorem AwaitsOutput.realize (h : p.AwaitsOutput name j) (hs : p.sourceSets.find? name = some s) :
    ∃ q, ConfigM.realize (compileJava name) p =
      .ok (.javaCompile { j with classpath := s.compileClasspath, destination := s.output.classesDirs }) q := by
  obtain ⟨t, u, ht, hrealized, hbody, hu, hpending⟩ := h
  obtain ⟨q, hq⟩ := ConfigM.realize_of_one ht hrealized hpending trivial
  have hunit : p.sourceSets.units[u]? = some s := (SourceSets.find?_of_lookup hu).symm.trans hs
  have heffect : Configurator.effect p t.body (.compileFrom u) =
      .javaCompile { j with classpath := s.compileClasspath, destination := s.output.classesDirs } := by
    simp only [hbody, Configurator.effect, hunit]
  exact ⟨q, heffect ▸ hq⟩

end Project

/-! ## Wiring -/

namespace ConfigM

variable {p q : Project}

/-- The compile task of a source set that was just created waits for the source set. -/
theorem awaitsOutput_of_createSourceSet {name : String} {u : Unit} (h : createSourceSet name p = .ok u q) :
    q.AwaitsOutput name { sourceSet := name } := by
  obtain ⟨unit, htask, hunit⟩ := awaits_of_createSourceSet h .compile
  exact ⟨_, unit, htask, rfl, rfl, hunit, rfl⟩

theorem configurationsOnly_declareProcessingInput (kind : ProcessingKind) (input classpath : String) (p : Project) :
    Keeps ConfigurationsOnly (declareProcessingInput kind input classpath) p := by
  unfold declareProcessingInput
  cases kind with
  | application => exact configurationsOnly_onConfigurations _
  | tests main =>
    exact .bind configurationsOnly_frame (configurationsOnly_onConfigurations _) fun _ _ _ =>
      configurationsOnly_onConfigurations _

theorem registerProcessingTask_isToProcess {kind : ProcessingKind} {input classpath : String} {roots : FileCollection}
    {outputs : ProcessingOutputs} (h : registerProcessingTask kind input classpath roots outputs p = .ok ⟨⟩ q) :
    q.sourceSets = p.sourceSets ∧ q.IsToProcess kind.taskName roots := by
  unfold registerProcessingTask at h
  obtain ⟨_, _, hget, h⟩ := bind_ok h
  cases hget
  cases kind with
  | application =>
    obtain ⟨_, q₁, htask, hproviders⟩ := bind_ok h
    obtain ⟨r, hr, rfl⟩ := onTasks_eq_ok htask
    cases hproviders
    exact ⟨rfl, _, _, _, Tasks.find?_register_self hr, rfl, rfl, rfl, rfl⟩
  | tests main =>
    obtain ⟨_, q₁, htask, hproviders⟩ := bind_ok h
    obtain ⟨r, hr, rfl⟩ := onTasks_eq_ok htask
    cases hproviders
    exact ⟨rfl, _, _, _, Tasks.find?_register_self hr, rfl, rfl, rfl, rfl⟩

/-- Wiring leaves the input its output, and registers the processing task to be given the classes that lie there now. -/
theorem wireProcessingTask_isToProcess {kind : ProcessingKind} {derived input classpath task : String}
    {outputs : ProcessingOutputs} (h : wireProcessingTask kind derived input classpath outputs p = .ok task q) :
    ∃ s t, p.sourceSets.get input = .ok s ∧ q.sourceSets.find? input = some t ∧ t.output = s.output ∧
      q.IsToProcess task s.output.roots := by
  obtain ⟨rfl, s, q₁, q₂, q₃, q₄, q₅, q₆, hparts, h₁, h₂, h₃, h₄, h₅, h₆, h₇⟩ := wireProcessingTask_ok h
  obtain ⟨-, -, -, -, hs, -⟩ := requireProcessingParts_eq_ok hparts
  have hq₁ := (configurationsOnly_declareProcessingInput kind input classpath p).of_ok h₁
  obtain ⟨r, hr, hq₂⟩ := onSourceSets_eq_ok h₂
  have hq₃ := (configurationsOnly_onConfigurations (p := q₂) _).of_ok h₃
  obtain ⟨hq₄, htask⟩ := registerProcessingTask_isToProcess h₄
  have hq₅ := (configurationsOnly_onConfigurations (p := q₄) _).of_ok h₅
  have hq₆ := (tasksOnly_onTasks (p := q₅) _).of_ok h₆
  have hq := (tasksOnly_onTasks (p := q₆) _).of_ok h₇
  have hsets : q.sourceSets = r := by
    rw [hq.sourceSets_eq, hq₆.sourceSets_eq, hq₅.sourceSets_eq, hq₄, hq₃.sourceSets_eq, hq₂]
  have hentries : q.tasks.entries = q₄.tasks.entries := by
    rw [entries_of_dependsOn h₇, entries_of_dependsOn h₆, hq₅.tasks_eq]
  have hinput : q₁.sourceSets.find? input = some s := hq₁.sourceSets_eq ▸ SourceSets.get_eq_ok hs
  have hafter : q.sourceSets.find? input =
      some { s with runtimeClasspath := s.runtimeClasspath.add (.dir outputs.classesDir) } := by
    rw [hsets]
    exact SourceSets.find?_of_update hinput hr
  exact ⟨s, _, hs, hafter, rfl, htask.congr hentries⟩

end ConfigM

namespace Project

variable {p q : Project}

/-- Once a processing task is wired, it is realized with the classes directories that its input had then, whatever the
    output of the input is changed to in between. The compile task of the input, if nothing was done to it since it was
    created, is realized with those that the input has by that time. So what is processed is what is compiled if and
    only if the two are the same collection of directories. -/
theorem wireProcessingTask_roots {kind : ProcessingKind} {derived input classpath task : String}
    {outputs : ProcessingOutputs} (h : ConfigM.wireProcessingTask kind derived input classpath outputs p = .ok task q) :
    ∃ s, p.sourceSets.get input = .ok s ∧ ∀ changes, ∃ r now,
      ConfigM.changeOutput input changes q = .ok ⟨⟩ r ∧ r.sourceSets.get input = .ok now ∧
      now.output = changes.foldl (fun o f => f o) s.output ∧
      (∃ body spec r', ConfigM.realize task r = .ok body r' ∧ body.spec? = some spec ∧
        spec.classpathRoots = s.output.roots ∧
        (spec.classpathRoots = now.output.roots ↔ s.output.roots = now.output.roots)) ∧
      ∀ j, q.AwaitsOutput input j → ∃ r', ConfigM.realize (compileJava input) r =
        .ok (.javaCompile { j with classpath := now.compileClasspath, destination := now.output.classesDirs }) r' := by
  obtain ⟨s, t, hs, ht, houtput, htask⟩ := ConfigM.wireProcessingTask_isToProcess h
  refine ⟨s, hs, fun changes => ?_⟩
  obtain ⟨r, hr, hregistered, hnow⟩ := ConfigM.changeOutput_eq ht changes
  refine ⟨_, _, hr, SourceSets.get_of_find? hnow, by rw [houtput], ?_, fun j hj => ?_⟩
  · obtain ⟨body, spec, r', hrealize, hspec, hroots⟩ := (htask.congr (q := { q with sourceSets := r }) rfl).realize
    exact ⟨body, spec, r', hrealize, hspec, hroots, by rw [hroots]⟩
  · exact (hj.congr (q := { q with sourceSets := r }) rfl hregistered).realize hnow

/-- A change to where resources go makes no difference to the classes that are processed. -/
theorem wireProcessingTask_roots_of_resources :
    ∃ p q r now body spec r', ConfigM.wireProcessingTask .application "aot" "main" "processAotClasspath"
        ⟨.project ⟨"aotSources"⟩, .project ⟨"aotResources"⟩, .build ⟨"generated/aotClasses"⟩⟩ p = .ok "processAot" q ∧
      ConfigM.changeOutput "main" [fun o => { o with resourcesDir := .build ⟨"resources/custom"⟩ }] q = .ok ⟨⟩ r ∧
      r.sourceSets.get "main" = .ok now ∧ ConfigM.realize "processAot" r = .ok body r' ∧ body.spec? = some spec ∧
      spec.classpathRoots = now.output.roots := by
  obtain ⟨p, q, h⟩ : ∃ p q, ConfigM.wireProcessingTask .application "aot" "main" "processAotClasspath"
      ⟨.project ⟨"aotSources"⟩, .project ⟨"aotResources"⟩, .build ⟨"generated/aotClasses"⟩⟩ p = .ok "processAot" q :=
    ⟨(Session.performAll [Plugin.java.step, (Plugin.boot none).step, .act (.sourceSet (.derive "aot" "main")),
      .act (.processing (.createClasspath "processAot" "main"))] (Session.start (.ofSettings {}))).2.workspace.project, _, rfl⟩
  obtain ⟨s, -, hchanges⟩ := wireProcessingTask_roots h
  obtain ⟨r, now, hr, hnow, houtput, ⟨body, spec, r', hrealize, hspec, -, hsame⟩, -⟩ :=
    hchanges [fun o => { o with resourcesDir := .build ⟨"resources/custom"⟩ }]
  have hroots : s.output.roots = now.output.roots := by
    rw [houtput]
    rfl
  exact ⟨p, q, r, now, body, spec, r', h, hr, hnow, hrealize, hspec, hsame.mpr hroots⟩

/-- When the classes of the application go to another directory after wiring, the compile task compiles into that, and
    the processing task still processes the one from before. -/
theorem a_later_output_is_not_processed :
    ∃ p q r body spec r₁ compiled r₂, p.Reachable ∧
      ConfigM.wireProcessingTask .application "aot" "main" "processAotClasspath"
        ⟨.project ⟨"aotSources"⟩, .project ⟨"aotResources"⟩, .build ⟨"generated/aotClasses"⟩⟩ p = .ok "processAot" q ∧
      ConfigM.changeOutput "main" [fun o => { o with classesDirs := [.build ⟨"classes/custom/main"⟩] }] q = .ok ⟨⟩ r ∧
      ConfigM.realize "processAot" r = .ok body r₁ ∧ body.spec? = some spec ∧
      spec.classpathRoots = .dir (.build ⟨"classes/java/main"⟩) ∧
      ConfigM.realize "compileJava" r = .ok (.javaCompile compiled) r₂ ∧
      compiled.destination = [.build ⟨"classes/custom/main"⟩] := by
  obtain ⟨p, q, t, hreachable, h, hs, ht, hawaits⟩ : ∃ p q t, p.Reachable ∧
      ConfigM.wireProcessingTask .application "aot" "main" "processAotClasspath"
        ⟨.project ⟨"aotSources"⟩, .project ⟨"aotResources"⟩, .build ⟨"generated/aotClasses"⟩⟩ p = .ok "processAot" q ∧
      (p.sourceSets.get "main").map (·.output.roots) = .ok (.dir (.build ⟨"classes/java/main"⟩)) ∧
      q.sourceSets.find? "main" = some t ∧ q.AwaitsOutput "main" { sourceSet := "main" } :=
    ⟨_, _, _, Session.performAll_reachable {} [Plugin.java.step, (Plugin.boot none).step,
      .act (.sourceSet (.derive "aot" "main")), .act (.processing (.createClasspath "processAot" "main"))],
      rfl, rfl, rfl, _, _, rfl, rfl, rfl, rfl, rfl⟩
  obtain ⟨s, -, hinput, -, -, htask⟩ := ConfigM.wireProcessingTask_isToProcess h
  rw [hinput] at hs
  obtain ⟨r, hr, hregistered, hnow⟩ :=
    ConfigM.changeOutput_eq ht [fun o => { o with classesDirs := [.build ⟨"classes/custom/main"⟩] }]
  obtain ⟨body, spec, r₁, hprocess, hspec, hroots⟩ := (htask.congr (q := { q with sourceSets := r }) rfl).realize
  obtain ⟨r₂, hcompile⟩ := (hawaits.congr (q := { q with sourceSets := r }) rfl hregistered).realize hnow
  exact ⟨p, q, _, body, spec, r₁, _, r₂, hreachable, h, hr, hprocess, hspec, hroots.trans (Except.ok.inj hs), hcompile, rfl⟩

end Project

end BuildGraph

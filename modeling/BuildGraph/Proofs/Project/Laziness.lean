/-
  BuildGraph.Proofs.Project.Laziness: projects in which nothing has been asked for yet.

  To configure a project is to write down what is to be done. A task is registered with nothing filled in but the
  source set it belongs to, and waits with its configurators; a lazy value is added with its thunk. In a project that
  is `Dormant` this is all there is, and what is done to it without asking for anything only adds to what waits
  (`Defers`).

  The main class takes the longest way. The processing task of the application is to be filled in with a lazy value
  that reads another task, and this task is to be filled in with the lazy value the main class was given as.
  `AwaitsProcessing` and `AwaitsMainClass` say that these two tasks still wait for that.

  - `idle_arranging` / `idle_wireProcessingTask`: creating and wiring leave a dormant project dormant.
  - `postpones_configure`: so does configuring a task, which then waits for more, and no other does.
  - `AwaitsProcessing.realize`: realizing the processing task realizes no other.
  - `AwaitsMainClass.evaluate`: its application class is the main class, and asking for it realizes the other task.
-/

import BuildGraph.Proofs.Project.Usage
import BuildGraph.Proofs.Project.WiringEffect

namespace BuildGraph

open Operation ConfigM

namespace Project

/-- Nothing has been asked for yet: no task is realized, no body filled in and no lazy value computed. -/
structure Dormant (p : Project) : Prop where
  unrealized : ∀ t ∈ p.tasks.entries, t.realized = false
  unfilled : ∀ t ∈ p.tasks.entries, t.body.Unfilled
  uncomputed : ∀ c ∈ p.providers, c.runs = 0

/-- In `q`, all that waits in `p` still waits: every task has the body it had and the configurators it was to be
    realized with, others after them, and every lazy value is as it was, others after them. -/
structure Defers (p q : Project) : Prop where
  tasks : ∀ name t, p.tasks.find? name = some t →
    ∃ more, q.tasks.find? name = some { t with pending := t.pending ++ more }
  providers : p.providers <+: q.providers

variable {p q r : Project} {name : String} {t : Task}

theorem Dormant.start (settings : Settings) : Dormant (.ofSettings settings) where
  unrealized _ h := absurd h List.not_mem_nil
  unfilled _ h := absurd h List.not_mem_nil
  uncomputed _ h := absurd h List.not_mem_nil

theorem Dormant.unrealized_of_find? (h : p.Dormant) (ht : p.tasks.find? name = some t) : t.realized = false :=
  h.unrealized t (Tasks.mem_of_find? ht)

theorem Defers.refl (p : Project) : p.Defers p where
  tasks _ t ht := ⟨[], by rw [ht, List.append_nil]⟩
  providers := List.prefix_rfl

theorem Defers.trans (h : p.Defers q) (h' : q.Defers r) : p.Defers r where
  tasks name t ht := by
    obtain ⟨more, hq⟩ := h.tasks name t ht
    obtain ⟨others, hr⟩ := h'.tasks name _ hq
    exact ⟨more ++ others, by rw [hr, List.append_assoc]⟩
  providers := h.providers.trans h'.providers

/-! ## What registers tasks and adds lazy values -/

/-- Nothing is asked for between `p` and `q`, if nothing was before. -/
structure Idle (p q : Project) : Prop where
  dormant : p.Dormant → q.Dormant
  providers : p.providers <+: q.providers

theorem idle_frame : Frame Idle where
  refl _ := ⟨id, List.prefix_rfl⟩
  trans h h' := ⟨fun hp => h'.dormant (h.dormant hp), h.providers.trans h'.providers⟩

theorem Idle.of_eq (ht : q.tasks.entries = p.tasks.entries) (hp : q.providers = p.providers) : p.Idle q where
  dormant h := by
    refine ⟨?_, ?_, ?_⟩
    · rw [ht]
      exact h.unrealized
    · rw [ht]
      exact h.unfilled
    · rw [hp]
      exact h.uncomputed
  providers := by rw [hp]

theorem idle_supply (p : Project) {cells : List Provider} (hcells : ∀ c ∈ cells, c.runs = 0) :
    p.Idle { p with providers := p.providers ++ cells } where
  dormant h := by
    refine ⟨h.unrealized, h.unfilled, fun c hc => ?_⟩
    rcases List.mem_append.mp hc with hc | hc
    · exact h.uncomputed c hc
    · exact hcells c hc
  providers := List.prefix_append ..

theorem idle_registerTask (name : String) {body : TaskBody} (hbody : body.Unfilled) (cs : List Configurator)
    (p : Project) : Keeps Idle (registerTask name body cs) p := by
  refine keeps_onTasks idle_frame fun r hr => ?_
  obtain ⟨-, rfl⟩ := Tasks.register_eq_ok hr
  refine ⟨fun h => ⟨fun t ht => ?_, fun t ht => ?_, h.uncomputed⟩, List.prefix_rfl⟩
  all_goals rcases List.mem_append.mp ht with ht | ht
  · exact h.unrealized t ht
  · cases List.mem_singleton.mp ht
    rfl
  · exact h.unfilled t ht
  · cases List.mem_singleton.mp ht
    exact hbody

theorem idle_dependsOn (dependent dependency : String) (p : Project) : Keeps Idle (dependsOn dependent dependency) p :=
  .of_eq_ok (onTasks_ok rfl) (.of_eq rfl rfl)

theorem idle_onSourceSets (f : SourceSets → Except ConfigError SourceSets) (p : Project) :
    Keeps Idle (onSourceSets f) p := keeps_onSourceSets idle_frame fun _ _ => .of_eq rfl rfl

theorem idle_onConfigurations (f : Configurations → Except ConfigError Configurations) (p : Project) :
    Keeps Idle (onConfigurations f) p := keeps_onConfigurations idle_frame fun _ _ => .of_eq rfl rfl

theorem idle_createConfiguration (name : String) (setup : List Configurations.Setup) (p : Project) :
    Keeps Idle (createConfiguration name setup) p := by
  unfold Keeps
  rw [after_createConfiguration]
  exact .of_eq rfl rfl

theorem idle_createSourceSet (name : String) (p : Project) : Keeps Idle (createSourceSet name) p := by
  refine keeps_createSourceSet idle_frame idle_createConfiguration (fun _ _ => .of_eq rfl rfl) (fun u p => ?_)
    (fun _ _ => .of_eq rfl rfl) p
  exact keeps_registerSourceSetTasks idle_frame (fun task _ _ hbody => idle_registerTask task hbody) idle_dependsOn u p

theorem idle_arranging : Arranging Idle where
  toFrame := idle_frame
  createConfiguration := idle_createConfiguration
  extendConfiguration _ _ := idle_onConfigurations _
  addDependency _ _ := idle_onConfigurations _
  editConfiguration _ _ := idle_onConfigurations _
  editSourceSet _ _ p _ _ _ := idle_onSourceSets _ p
  createSourceSet := idle_createSourceSet

theorem idle_wireProcessingTask (kind : ProcessingKind) (derived input classpath : String)
    (outputs : ProcessingOutputs) (p : Project) :
    Keeps Idle (wireProcessingTask kind derived input classpath outputs) p := by
  refine idle_arranging.toAdjusting.wireProcessingTask (fun roots outputs p => ?_) idle_dependsOn derived outputs p
  exact keeps_registerProcessingTask idle_frame (idle_registerTask _) idle_supply input classpath roots outputs p

/-! ## What configures a task -/

/-- Nothing is asked for between `p` and `q`, and only those tasks wait for more to which something was submitted. -/
structure Postpones (submitted : String → TaskKind → Prop) (p q : Project) : Prop where
  dormant : q.Dormant
  defers : p.Defers q
  others : ∀ name t, ¬ submitted name t.body.kind → p.tasks.find? name = some t → q.tasks.find? name = some t

section

variable {submitted : String → TaskKind → Prop}

theorem postpones_frame : Frame fun p q => p.Dormant → Postpones submitted p q where
  refl p hp := ⟨hp, .refl p, fun _ _ _ ht => ht⟩
  trans h h' hp := by
    have hq := h hp
    have hr := h' hq.dormant
    exact ⟨hr.dormant, hq.defers.trans hr.defers, fun name t hn ht => hr.others name t hn (hq.others name t hn ht)⟩

/-- What leaves every task as it is. -/
theorem Idle.postpones (h : p.Idle q) (htasks : ∀ name t, p.tasks.find? name = some t → q.tasks.find? name = some t)
    (hp : p.Dormant) : Postpones submitted p q where
  dormant := h.dormant hp
  defers := ⟨fun name t ht => ⟨[], by rw [htasks name t ht, List.append_nil]⟩, h.providers⟩
  others name t _ := htasks name t

end

/-- What is submitted to a task that is not realized waits with the rest. -/
theorem postpones_configure (name : String) (cs : List Configurator) (p : Project) :
    Keeps (fun p q => p.Dormant → Postpones (fun other _ => other = name) p q) (configure name cs) p := by
  intro hp
  cases ht : p.tasks.find? name with
  | none =>
    rw [after_of_error (configure_of_not_mem (Tasks.find?_eq_none_iff.mp ht))]
    exact postpones_frame.refl p hp
  | some t =>
    rw [after_of_ok (configure_of_unrealized ht (hp.unrealized_of_find? ht))]
    have hname : ∀ t : Task, { t with pending := t.pending ++ cs }.name = t.name := fun _ => rfl
    refine ⟨⟨fun u hu => ?_, fun u hu => ?_, hp.uncomputed⟩, ⟨fun other u hu => ?_, List.prefix_rfl⟩,
      fun other u hne hu => ?_⟩
    · rcases Tasks.mem_entries_update hu with hu | ⟨v, hv, -, rfl⟩
      · exact hp.unrealized u hu
      · exact hp.unrealized v hv
    · rcases Tasks.mem_entries_update hu with hu | ⟨v, hv, -, rfl⟩
      · exact hp.unfilled u hu
      · exact hp.unfilled v hv
    · rw [Tasks.find?_update hname, hu]
      split
      · exact ⟨cs, rfl⟩
      · exact ⟨[], by rw [List.append_nil]⟩
    · rw [Tasks.find?_update hname, if_neg hne]
      exact hu

/-! ## The way of the main class -/

/-- The task that knows the main class as it is registered, `configured` being what it is to be filled in with. -/
def waitingMainClassTask (configured : Option ProviderId) : Task where
  name := mainClassTask
  body := .blank .resolveMainClassName
  pending := [.change (.resolveMainClassName fun t =>
    { t with configuredMainClass := configured, outputFile := some (.build ⟨"resolvedMainClassName"⟩) })]

/-- The task that knows the main class is as it was registered with `mainClass`. -/
def AwaitsMainClass (p : Project) (mainClass : Option String) : Prop :=
  ∃ id, p.tasks.find? mainClassTask = some (waitingMainClassTask (mainClass.map fun _ => id)) ∧
    ∀ v, mainClass = some v → p.kept? id = some v

/-- The lazy value `id` reads the main class from the task that knows it, and was not computed yet. -/
def ReadsMainClass (p : Project) (id : ProviderId) : Prop :=
  p.providers[id]? = some { thunk := .fromTask mainClassTask TaskBody.mainClass }

/-- The processing task of the application is as it was wired. -/
def AwaitsProcessing (p : Project) : Prop :=
  ∃ first spec, p.tasks.find? ProcessingKind.application.taskName =
      some (ProcessingKind.application.task SourceSetName.main first spec) ∧ p.ReadsMainClass (first + 2)

theorem getElem?_of_prefix {cells more : List Provider} (h : cells <+: more) {id : ProviderId} {cell : Provider}
    (hcell : cells[id]? = some cell) : more[id]? = some cell := by
  obtain ⟨rest, rfl⟩ := h
  exact (List.getElem?_append_left (List.getElem?_eq_some_iff.mp hcell).1).trans hcell

theorem kept?_of_prefix {id : ProviderId} {v : String} (h : p.providers <+: q.providers) (hv : p.kept? id = some v) :
    q.kept? id = some v := by
  obtain ⟨cell, hcell, hvalue⟩ := Option.bind_eq_some_iff.mp hv
  rw [kept?, getElem?_of_prefix h hcell]
  exact hvalue

/-- The task waits on as long as it is left as it is and no lazy value is taken away. -/
theorem AwaitsMainClass.stays {mainClass : Option String} (h : p.AwaitsMainClass mainClass)
    (htask : ∀ t, t.body.kind = .resolveMainClassName → p.tasks.find? mainClassTask = some t →
      q.tasks.find? mainClassTask = some t)
    (hproviders : p.providers <+: q.providers) : q.AwaitsMainClass mainClass := by
  obtain ⟨id, ht, hv⟩ := h
  exact ⟨id, htask _ rfl ht, fun v hmain => kept?_of_prefix hproviders (hv v hmain)⟩

theorem AwaitsProcessing.stays (h : p.AwaitsProcessing)
    (htask : ∀ t, t.body.kind = .processAot → p.tasks.find? ProcessingKind.application.taskName = some t →
      q.tasks.find? ProcessingKind.application.taskName = some t)
    (hproviders : p.providers <+: q.providers) : q.AwaitsProcessing := by
  obtain ⟨first, spec, ht, hreads⟩ := h
  exact ⟨first, spec, htask _ rfl ht, getElem?_of_prefix hproviders hreads⟩

/-- Realizing the processing task fills it in with what it waits for, and realizes no other. -/
theorem AwaitsProcessing.realize (h : p.AwaitsProcessing) :
    ∃ t id r, ConfigM.realize ProcessingKind.application.taskName p = .ok (.processAot t) { p with tasks := r } ∧
      t.applicationClass = some id ∧ p.ReadsMainClass id ∧
      ∀ other, other ≠ ProcessingKind.application.taskName → r.find? other = p.tasks.find? other := by
  obtain ⟨first, spec, ht, hreads⟩ := h
  have hasks : ∀ c ∈ (ProcessingKind.application.task SourceSetName.main first spec).pending, c.AsksNothing :=
    List.forall_mem_singleton.mpr trivial
  obtain ⟨r, hr, -, hothers⟩ := exists_realizeWith_of_unrealized _ ht rfl hasks
  exact ⟨_, first + 2, r, hr, rfl, hreads, hothers⟩

/-- Whoever lets the task be realized that knows the main class, it is filled in with what it waits for, and realizes no
    other. -/
theorem AwaitsMainClass.realizeWith {mainClass : Option String} (h : p.AwaitsMainClass mainClass)
    (ask : ProviderId → ConfigM String) :
    ∃ body r, ConfigM.realizeWith ask mainClassTask p = .ok body { p with tasks := r } ∧
      (mainClass = none ∧ body.mainClass = .text "" ∨
        ∃ v id, mainClass = some v ∧ body.mainClass = .provider id ∧ p.kept? id = some v) ∧
      r.isRealized mainClassTask = .ok true ∧ ∀ other, other ≠ mainClassTask → r.find? other = p.tasks.find? other := by
  obtain ⟨id, ht, hv⟩ := h
  have hasks : ∀ c ∈ (waitingMainClassTask (mainClass.map fun _ => id)).pending, c.AsksNothing :=
    List.forall_mem_singleton.mpr trivial
  obtain ⟨r, hr, hself, hothers⟩ := exists_realizeWith_of_unrealized ask ht rfl hasks
  refine ⟨_, r, hr, ?_, Tasks.isRealized_iff.mpr ⟨_, hself, rfl⟩, hothers⟩
  cases mainClass with
  | none => exact .inl ⟨rfl, rfl⟩
  | some v => exact .inr ⟨v, id, rfl, rfl, hv v rfl⟩

/-- The lazy value that reads the main class comes to what the main class was given as, or to the empty text if it was
    not. Asking for it realizes the task that knows the main class, and changes nothing else. -/
theorem AwaitsMainClass.evaluate {mainClass : Option String} {id : ProviderId} (h : p.AwaitsMainClass mainClass)
    (hreads : p.ReadsMainClass id) :
    ∃ r, ConfigM.evaluate id p =
        .ok (mainClass.getD "") (Project.keep { p with tasks := r } id (mainClass.getD "")) ∧
      r.isRealized mainClassTask = .ok true ∧ ∀ other, other ≠ mainClassTask → r.find? other = p.tasks.find? other := by
  -- there is a lazy value, so there is room to ask for one more
  obtain ⟨depth, hdepth⟩ := Nat.exists_eq_succ_of_ne_zero (Nat.ne_zero_of_lt (List.getElem?_eq_some_iff.mp hreads).1)
  obtain ⟨body, r, hr, hmain, hrealized, hothers⟩ :=
    h.realizeWith (ConfigM.evaluateWith (depth + 1) [.task mainClassTask, .provider id])
  refine ⟨r, ?_, hrealized, hothers⟩
  have hrun : runThunk (ConfigM.evaluateWith (depth + 1)) [.provider id] 0 (.fromTask mainClassTask TaskBody.mainClass) p =
      .ok (mainClass.getD "") { p with tasks := r } := by
    refine runThunk_fromTask (by simp) hr ?_
    rcases hmain with ⟨rfl, hbody⟩ | ⟨v, source, rfl, hbody, hkept⟩
    · exact .inl ⟨hbody, rfl⟩
    · exact .inr ⟨source, hbody, evaluateWith_of_kept (p := { p with tasks := r }) hkept depth _⟩
  unfold ConfigM.evaluate evaluateBusy
  rw [bind_of_ok (get_apply p), hdepth]
  exact evaluateWith_of_not_kept hreads rfl List.not_mem_nil hrun

/-! ## Where the way begins -/

theorem awaitsMainClass_of_registerMainClassTask {mainClass : Option String} {u : Unit}
    (h : registerMainClassTask mainClass p = .ok u q) : q.AwaitsMainClass mainClass := by
  unfold registerMainClassTask at h
  rw [bind_of_ok (get_apply p)] at h
  obtain ⟨_, q₁, htask, hproviders⟩ := bind_ok h
  obtain ⟨r, hr, rfl⟩ := onTasks_eq_ok htask
  cases hproviders
  refine ⟨p.nextProvider, Tasks.find?_register_self hr, ?_⟩
  rintro v rfl
  show ((p.providers ++ [Provider.of v])[p.providers.length]?).bind (·.value) = some v
  rw [List.getElem?_concat_length]
  rfl

theorem awaitsProcessing_of_wireProcessingTask {derived input classpath task : String} {outputs : ProcessingOutputs}
    (h : wireProcessingTask .application derived input classpath outputs p = .ok task q) : q.AwaitsProcessing := by
  obtain ⟨rfl, hnew, u, s, -, -, rfl⟩ := wireProcessingTask_result h
  refine ⟨p.nextProvider, _, Tasks.find?_snoc (t := ProcessingKind.application.task input _ _) hnew _, ?_⟩
  show (p.providers ++ ProcessingKind.application.values p.name)[p.providers.length + 2]? = _
  rw [List.getElem?_append_right (Nat.le_add_right ..), Nat.add_sub_cancel_left]
  rfl

end Project

end BuildGraph

/-
  BuildGraph.Proofs.Script.Snapshot: a processing classpath is a copy, whatever a script does later.

  `Machine.Leads` is a run: rounds of a script under way, and a further step whenever nothing is left to do, with the
  actions that were performed. An action is directed at a configuration if it makes it extend another or sets its
  attributes (`Action.Edits`): by its name, or by wiring a derived source set whose compile classpath it is.

  - `Action.run_presents`: an action that is not directed at a configuration leaves alone what it extends and its
    attributes.
  - `Machine.Leads.presents`: so does a run without such an action, at every moment.
  - `Session.performAll_leads`: performing steps one after another is such a run.
  - `Reachable.createProcessingClasspath_snapshot`: a processing classpath copies the runtime classpath of its source set
    and stays as it was copied.
-/

import BuildGraph.Proofs.Project.Snapshot
import BuildGraph.Proofs.Script.Retention

namespace BuildGraph

open Operation Project SourceSetName

/-! ## Actions -/

/-- The action makes the configuration `name` extend another or changes its attributes. -/
def Action.Edits (name : String) : Action → Prop
  | .configuration (.extend child _) => child = name
  | .configuration (.configure other change) => other = name ∧ change.attributes ≠ []
  | .configuration (.copyAttributes _ target) => target = name
  | .processing (.wire _ derived _ _ _) => compileClasspath derived = name
  | _ => False

section

variable {name : String} {parents : List String} {attributes : AttributeSet}

theorem presenting_handling : Handling (Presenting name parents attributes) where
  toFrame := presenting_frame
  mark _ _ := .of_eq rfl
  body _ _ _ := .of_eq rfl
  resolve _ _ _ := .of_eq rfl
  supply _ _ _ := .of_eq rfl
  values _ _ _ _ := .of_eq rfl
  reshape _ _ _ _ _ := preserves_onSourceSets _ _
  wait _ _ _ := .of_eq rfl
  dependsOn _ _ := preserves_onTasks _ _

theorem ConfigurationChange.attributes_apply {change : ConfigurationChange} (h : change.attributes = []) (c : Configuration) :
    (change.apply c).attributes = c.attributes := by rw [ConfigurationChange.apply, h, List.foldl_nil]

theorem Action.changesKeep_presenting {a : Action} (ha : ¬ a.Edits name) :
    a.ChangesKeep (Presenting name parents attributes) := by
  cases a with
  | sourceSet a =>
    cases a with
    | create other => exact preserves_createSourceSet other
    | insert other => exact preserves_onSourceSets _
    | derive other existing => exact preserves_deriveSourceSet other existing
    | setClasspath other which files => exact preserves_onSourceSets _
    | _ => trivial
  | configuration a =>
    cases a with
    | create other setup => exact preserves_createConfiguration other setup
    | configure other change =>
      -- either it is another configuration that is changed, or its attributes are not
      exact preserves_updateConfiguration (fun _ => rfl) fun he c =>
        change.attributes_apply (Decidable.not_not.mp fun hne => ha ⟨he, hne⟩) c
    | extend child parent => exact preserves_extendConfiguration ha parent
    | addDependency other d => exact preserves_addDependency other d
    | copyAttributes source target =>
      exact fun s => preserves_updateConfiguration (f := fun c => { c with attributes := s.copyTo c.attributes })
        (fun _ => rfl) fun he => absurd he ha
    | _ => trivial
  | task a =>
    cases a with
    | register task setup => exact fun _ => preserves_onTasks _
    | _ => trivial
  | processing a =>
    cases a with
    | javaConventions => exact preserves_applyJavaConventions
    | mainClassTask mainClass => exact fun _ => preserves_onTasks _
    | createClasspath task sourceSet => exact preserves_createProcessingClasspath task sourceSet
    | wire kind derived input classpath outputs => exact preserves_wireProcessingTask ha kind input classpath
    | _ => trivial
  | _ => trivial

/-- However far it comes, an action leaves a configuration alone that it is not directed at. -/
theorem Action.run_presents (plugins : Plugins) {a : Action} (ha : ¬ a.Edits name) (w : Workspace) :
    Keeps (Workspace.On (Presenting name parents attributes)) (a.run plugins) w :=
  a.run_handles presenting_handling plugins (Action.changesKeep_presenting ha) w

end

/-! ## Runs -/

namespace Machine

variable {m m' m'' : Machine} {actions more : List Action}

/-- The action that is performed in the next round. -/
def action? (m : Machine) : Option Action :=
  match m.work with
  | .step _ (.act a) :: _ => some a
  | _ => none

/-- A run leads from `m` to `m'`, and these are the actions that were performed on the way, whether they succeeded or
    failed. -/
inductive Leads (m : Machine) : List Action → Machine → Prop
  | here : Leads m [] m
  /-- One round further. -/
  | round {actions : List Action} {m' : Machine} : Leads m actions m' → Leads m (actions ++ m'.action?.toList) m'.next
  /-- Another step is begun when nothing is left to do. -/
  | begin {actions : List Action} {m' : Machine} (step : Step) :
    Leads m actions m' → m'.work = [] → Leads m actions (m'.session.machine step)

namespace Leads

theorem trans (h : m.Leads actions m') (h' : m'.Leads more m'') : m.Leads (actions ++ more) m'' := by
  induction h' with
  | here => simpa using h
  | round _ ih =>
    rw [← List.append_assoc]
    exact ih.round
  | begin step _ hwork ih => exact ih.begin step hwork

/-- At every moment of a run in which no action is directed at a configuration, it presents what it presented. -/
theorem presents {name : String} {parents : List String} {attributes : AttributeSet} (h : m.Leads actions m')
    (hedits : ∀ a ∈ actions, ¬ a.Edits name) (hm : m.workspace.project.Presents name parents attributes) :
    m'.workspace.project.Presents name parents attributes := by
  induction h with
  | here => exact hm
  | @round actions m' _ ih =>
    have hbefore := ih fun a ha => hedits a (List.mem_append_left _ ha)
    refine m'.next_keeps presenting_frame (fun reported a rest hwork => ?_) hbefore
    have hperformed : a ∈ m'.action?.toList := by rw [action?, hwork]; exact List.mem_singleton_self a
    exact Action.run_presents m'.plugins (hedits a (List.mem_append_right _ hperformed)) m'.workspace
  | begin step _ _ ih => exact ih hedits

end Leads

theorem leads_run (n : Nat) (m : Machine) : ∃ actions, m.Leads actions (m.run n) := by
  induction n generalizing m with
  | zero => exact ⟨[], .here⟩
  | succ n ih =>
    obtain ⟨actions, hrest⟩ := ih m.next
    exact ⟨_, Leads.here.round.trans hrest⟩

end Machine

/-- Steps that are performed one after another are a run. -/
theorem Session.performAll_leads (steps : List Step) {m : Machine} (hm : m.work = []) :
    ∃ actions m', m.Leads actions m' ∧ m'.work = [] ∧ m'.session = (performAll steps m.session).2 := by
  induction steps generalizing m with
  | nil => exact ⟨[], m, .here, hm, rfl⟩
  | cons step steps ih =>
    obtain ⟨first, hfirst⟩ := Machine.leads_run (m.session.machine step).weight (m.session.machine step)
    obtain ⟨actions, m', hrest, hwork, hsession⟩ := ih (m.session.machine step).finish_work
    have hdone : (m.session.machine step).finish.session = (m.session.perform step).2 := (perform_eq _ _).symm
    rw [hdone] at hsession
    exact ⟨_, m', ((Machine.Leads.here.begin step hm).trans hfirst).trans hrest, hwork, hsession⟩

/-- Actions that are performed as steps of their own are a run with these actions. -/
theorem Session.performAll_act_leads (actions : List Action) {m : Machine} (hm : m.work = []) :
    ∃ m', m.Leads actions m' ∧ m'.work = [] ∧ m'.session = (performAll (actions.map .act) m.session).2 := by
  induction actions generalizing m with
  | nil => exact ⟨m, .here, hm, rfl⟩
  | cons a actions ih =>
    have hone : m.Leads [a] (m.session.machine (.act a)).next := (Machine.Leads.here.begin (.act a) hm).round
    have hfinish : (m.session.machine (.act a)).finish = (m.session.machine (.act a)).next := finish_act m.session a
    obtain ⟨m', hrest, hwork, hsession⟩ := ih (m := (m.session.machine (.act a)).next) (hfinish ▸ Machine.finish_work _)
    have hdone : (m.session.machine (.act a)).next.session = (m.session.perform (.act a)).2 := by
      rw [perform_eq, ← hfinish]
      rfl
    rw [hdone] at hsession
    exact ⟨m', hone.trans hrest, hwork, hsession⟩

/-! ## Processing classpaths -/

namespace Project

variable {p q : Project} {task sourceSet name : String}

/-- A processing classpath extends what the runtime classpath of its source set extends, in the same order, and has the
    same attributes. Beyond the two, their hierarchies are the same, and neither stands in that of the other. Whatever a
    script does later, what the processing classpath extends and its attributes stay the same, unless an action is
    directed at it. -/
theorem Reachable.createProcessingClasspath_snapshot (h : p.Reachable)
    (hok : ConfigM.createProcessingClasspath task sourceSet p = .ok name q) :
    ∃ parents attributes beyond,
      (p.configurations.Presents (runtimeClasspath sourceSet) parents attributes ∧
        q.configurations.Presents (runtimeClasspath sourceSet) parents attributes ∧
        q.configurations.Presents name parents attributes) ∧
      (q.configurations.hierarchy (runtimeClasspath sourceSet) = .ok (runtimeClasspath sourceSet :: beyond) ∧
        q.configurations.hierarchy name = .ok (name :: beyond) ∧
        name ∉ runtimeClasspath sourceSet :: beyond ∧ runtimeClasspath sourceSet ∉ name :: beyond) ∧
      ∀ (m m' : Machine) actions, m.workspace.project = q → m.Leads actions m' → (∀ a ∈ actions, ¬ a.Edits name) →
        m'.workspace.project.configurations.Presents name parents attributes := by
  obtain ⟨parents, attributes, beyond, hbefore, hbase, hname, hhierarchies⟩ := createProcessingClasspath_presents h.sound hok
  refine ⟨parents, attributes, beyond, ⟨hbefore, hbase, hname⟩, hhierarchies, fun m m' actions hm hleads hedits => ?_⟩
  refine hleads.presents hedits ?_
  rw [hm]
  exact hname

/-- Later the runtime classpath extends another configuration and gets another attribute, a source set is derived and its
    processing task is wired; the processing classpath is as it was. -/
theorem Reachable.createProcessingClasspath_snapshot_not_live :
    ∃ (p q : Project) (m m' : Machine) (actions : List Action), p.Reachable ∧
      ConfigM.createProcessingClasspath "processAot" "main" p = .ok "processAotClasspath" q ∧
      m.workspace.project = q ∧ m.Leads actions m' ∧
      m'.workspace.project.configurations.extendsOf "runtimeClasspath" = .ok ["runtimeOnly", "implementation", "late"] ∧
      m'.workspace.project.configurations.extendsOf "aotCompileClasspath" =
        .ok ["aotCompileOnly", "aotImplementation", "processAotClasspath"] ∧
      m'.workspace.project.configurations.extendsOf "processAotClasspath" = .ok ["runtimeOnly", "implementation"] := by
  let p := (Session.performAll [Plugin.java.step] (.start (.ofSettings {}))).2.workspace.project
  let q := after (ConfigM.createProcessingClasspath "processAot" "main") p
  let m : Machine := { work := [], workspace := { project := q }, plugins := {} }
  have hreachable : p.Reachable := Session.performAll_reachable {} [Plugin.java.step]
  have hok : ConfigM.createProcessingClasspath "processAot" "main" p = .ok "processAotClasspath" q := rfl
  obtain ⟨m', hleads, -, hsession⟩ := Session.performAll_act_leads [.configuration (.create "late" []),
    .configuration (.extend "runtimeClasspath" "late"),
    .configuration (.configure "runtimeClasspath" { attributes := [("late", "value")] }),
    .sourceSet (.derive "aot" "main"), .processing (.mainClassTask none),
    .processing (.wire .application "aot" "main" "processAotClasspath" none)] (m := m) rfl
  have hworkspace := congrArg Session.workspace hsession
  obtain ⟨parents, attributes, -, ⟨-, -, hname⟩, -, hlater⟩ := Reachable.createProcessingClasspath_snapshot hreachable hok
  have hother : compileClasspath "aot" ≠ "processAotClasspath" := by decide
  have hstays := hlater m m' _ rfl hleads (by simp [Action.Edits, hother])
  have hparents : parents = ["runtimeOnly", "implementation"] := (Except.ok.inj hname.extendsOf).symm
  refine ⟨p, q, m, m', _, hreachable, hok, rfl, hleads, ?_, ?_, hparents ▸ hstays.extendsOf⟩
  · rw [show m'.workspace = _ from hworkspace]
    exact (if_pos (by decide +kernel)).trans (congrArg Except.ok (by decide +kernel))
  · rw [show m'.workspace = _ from hworkspace]
    exact (if_pos (by decide +kernel)).trans (congrArg Except.ok (by decide +kernel))

end Project

end BuildGraph

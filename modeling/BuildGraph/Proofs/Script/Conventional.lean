/-
  BuildGraph.Proofs.Script.Conventional: scripts made of plugins, source sets and configurations.

  A conventional script registers no task and declares no dependency between tasks itself; it leaves
  that to the plugins and to the creation of source sets. Its steps may fail anywhere, and what was
  done until then stays.

  - `Due`: what may be left to do. Processing is wired only after the source sets it fills were
    derived, so the rest of a handler that derives them is due once this has succeeded.
  - `Machine.next_conforms`: every round keeps the project conventional and the rest due.
  - `Session.performAll_conforms`: so does every script.
-/

import BuildGraph.Proofs.Project.Conventional
import BuildGraph.Proofs.Script.Reachable

namespace BuildGraph

open Machine Operation Project SourceSetName

/-! ## Conventional scripts -/

/-- An action that leaves tasks, and the outputs of source sets, to the conventions. -/
def Action.isConventional : Action → Bool
  | .project (.setGroup _) => true
  | .project (.setBuildDir _) => true
  | .sourceSet (.create _) => true
  | .sourceSet (.insert _) => true
  | .sourceSet (.derive _ _) => true
  | .sourceSet (.setDirs _ _ _) => true
  | .sourceSet (.setClasspath _ _ _) => true
  | .sourceSet (.addClasspath _ _ _) => true
  | .configuration (.create _ _) => true
  | .configuration (.extend _ _) => true
  | .configuration (.addDependency _ _) => true
  | .processing .javaConventions => true
  | .processing (.mainClassTask _) => true
  | .processing (.createClasspath _ _) => true
  | _ => false

/-- A step made of such actions, and of what the plugin for ahead-of-time processing does. -/
inductive Step.Conventional : Step → Prop
  | act {a : Action} : a.isConventional = true → Conventional (.act a)
  | apply (id : PluginId) (reported : Bool) {body : List Step} : (∀ s ∈ body, Conventional s) →
    Conventional (.apply id reported body)
  | withPlugin (id : PluginId) (reported : Bool) {body : List Step} : (∀ s ∈ body, Conventional s) →
    Conventional (.withPlugin id reported body)
  | attempt (reported : Bool) {body : List Step} : (∀ s ∈ body, Conventional s) →
    Conventional (.attempt reported body)
  | processing : Conventional (.withPlugin Plugin.javaId false Plugin.deriveSourceSets)

namespace Plugin

theorem java_conventional : java.step.Conventional := .apply _ _ (by simpa [java] using .act rfl)

theorem boot_conventional (mainClass : Option String) : (boot mainClass).step.Conventional :=
  .apply _ _ (by simpa [boot] using .act rfl)

theorem aot_conventional : aot.step.Conventional := .apply _ _ (by simpa [aot] using .processing)

end Plugin

namespace ScriptM

variable {w : Workspace}

theorem on_frame_conventional : Frame (Workspace.On (Preserves Conventional)) := Workspace.on_frame ConfigM.conventional_frame

theorem conventional_changeClasspath (sourceSet : String) (which : ClasspathKind)
    (f : FileCollection → FileCollection) :
    Keeps (Workspace.On (Preserves Conventional)) (changeClasspath sourceSet which f) w := by
  refine on_changeClasspath ConfigM.conventional_frame (ConfigM.conventional_editSourceSet _ fun s => ?_)
  cases which <;> rfl

end ScriptM

open ScriptM

/-- Such an action keeps a project conventional, whether it succeeds or fails. -/
theorem Action.run_conventional (plugins : Plugins) {a : Action} (h : a.isConventional = true) (w : Workspace) :
    Keeps (Workspace.On (Preserves Conventional)) (a.run plugins) w := by
  have hF := on_frame_conventional
  cases a with
  | project a =>
    cases a with
    | setGroup value => exact .andReturn hF (on_onProject (.of_modify fun hp => hp.congr rfl rfl))
    | setBuildDir value => exact .andReturn hF (on_onProject (.of_modify fun hp => hp.congr rfl rfl))
    | _ => cases h
  | sourceSet a =>
    cases a with
    | create name => exact .andReturn hF (on_onProject (ConfigM.conventional_createSourceSet name))
    | insert name => exact .andReturn hF (on_onProject (ConfigM.conventional_insert name))
    | derive name existing => exact .andReturn hF (on_onProject (ConfigM.conventional_arranging.deriveSourceSet name existing _))
    | setDirs sourceSet which dirs =>
      refine .andReturn hF (on_onProject (ConfigM.conventional_editSourceSet _ fun s => ?_))
      cases which <;> rfl
    | setClasspath sourceSet which files => exact conventional_changeClasspath _ _ _
    | addClasspath sourceSet which files => exact conventional_changeClasspath _ _ _
    | _ => cases h
  | configuration a =>
    cases a with
    | create name setup => exact .andReturn hF (on_onProject (ConfigM.conventional_createConfiguration name setup))
    | extend child parent => exact .andReturn hF (on_onProject (ConfigM.conventional_onConfigurations _))
    | addDependency configuration dependency =>
      refine .bind hF (on_onProject (ConfigM.conventional_onConfigurations _)) fun _ _ _ => ?_
      exact .andReturn hF (on_ask ConfigM.conventional_frame _)
    | _ => cases h
  | processing a =>
    cases a with
    | javaConventions => exact .andReturn hF (on_onProject (ConfigM.conventional_arranging.applyJavaConventions _))
    | mainClassTask mainClass =>
      exact .andReturn hF (on_onProject (ConfigM.conventional_registerMainClassTask mainClass))
    | createClasspath task sourceSet =>
      exact .andReturn hF (on_onProject (ConfigM.conventional_arranging.createProcessingClasspath task sourceSet _))
    | _ => cases h
  | _ => cases h

/-! ## What may be left to do -/

/-- The action wires a processing task for a source set that was built. -/
def Action.Wires (p : Project) : Action → Prop
  | .processing (.wire kind derived _ _ _) => derived = kind.derived ∧ p.Built kind.derived
  | _ => False

theorem Action.Wires.evolves {p q : Project} {a : Action} (h : a.Wires p) (hq : Evolves p q) : a.Wires q := by
  cases a with
  | processing a =>
    cases a with
    | wire kind derived input classpath outputs => exact ⟨h.1, h.2.evolves hq⟩
    | _ => exact h
  | _ => exact h

theorem Action.Wires.run_conventional (plugins : Plugins) {a : Action} {w : Workspace} (h : a.Wires w.project) :
    Keeps (Workspace.On (Preserves Conventional)) (a.run plugins) w := by
  have hF := on_frame_conventional
  cases a with
  | processing a =>
    cases a with
    | wire kind derived input classpath outputs =>
      obtain ⟨rfl, hb⟩ := h
      have hwire : ∀ o, Keeps (Workspace.On (Preserves Conventional))
          (do return Answer.text (← onProject (ConfigM.wireProcessingTask kind kind.derived input classpath o))) w :=
        fun o => .andReturn hF (on_onProject (ConfigM.conventional_wireProcessingTask kind input classpath o hb))
      cases outputs with
      | some o => exact hwire o
      | none =>
        refine .bind hF (on_require ConfigM.conventional_frame _) ?_
        intro o v ho
        obtain ⟨-, rfl⟩ := require_eq_ok ho
        exact hwire o
    | _ => exact h.elim
  | _ => exact h.elim

namespace Work

/-- The work that a piece of work gives rise to, at once or when a plugin is applied. -/
def inner : Work → List Work
  | .step _ (.apply _ inner body) => workOf inner body
  | .step _ (.withPlugin _ inner body) => workOf inner body
  | .step _ (.attempt inner body) => workOf inner body
  | .handler h => workOf h.reported h.body
  | _ => []

/-- An action may be done at any time, or wires a processing task when this may be done. -/
def Fit (p : Project) : Work → Prop
  | .step _ (.act a) => a.isConventional = true ∨ a.Wires p
  | _ => True

theorem Fit.evolves {p q : Project} {w : Work} (h : w.Fit p) (hq : Evolves p q) : w.Fit q := by
  cases w with
  | step reported s =>
    cases s with
    | act a => exact Or.imp id (fun hw => hw.evolves hq) h
    | _ => trivial
  | _ => trivial

end Work

/-- Work that may be left to do in a project, and all it gives rise to. What follows the derivation of a source set
    may rely on this source set; if the derivation fails, it is never done. -/
inductive Due : Project → List Work → Prop
  | done {p : Project} : Due p []
  | next {p : Project} {w : Work} {rest : List Work} : w.Fit p → Due p w.inner → Due p rest → Due p (w :: rest)
  | derive {p : Project} {reported : Bool} {name existing : String} {rest : List Work} :
    (∀ q, Evolves p q → q.Built name → Due q rest) → (∀ r ws, recover rest = some (r, ws) → Due p ws) →
    Due p (.step reported (.act (.sourceSet (.derive name existing))) :: rest)

theorem Machine.recover_append (ws vs : List Work) :
    recover (ws ++ vs) = match recover ws with
      | some (r, rest) => some (r, rest ++ vs)
      | none => recover vs := by
  induction ws with
  | nil => rfl
  | cons w ws ih =>
    cases w with
    | attempted reported => rfl
    | _ => exact ih

namespace Due

variable {p q : Project} {ws vs : List Work}

theorem evolves (h : Due p ws) (hq : Evolves p q) : Due q ws := by
  induction h generalizing q with
  | done => exact .done
  | next hw _ _ ihinner ihrest => exact .next (hw.evolves hq) (ihinner hq) (ihrest hq)
  | derive hok _ _ ihfail =>
    exact .derive (fun r hr hb => hok r (hq.trans hr) hb) fun r ws hws => ihfail r ws hws hq

/-- What is left after a failure was due before. -/
theorem recover (h : Due p ws) {r : Bool} (hr : Machine.recover ws = some (r, vs)) : Due p vs := by
  induction h with
  | done => cases hr
  | @next _ w rest _ _ hrest _ ih =>
    cases w with
    | attempted reported =>
      cases hr
      exact hrest
    | _ => exact ih hr
  | derive _ hfail => exact hfail r vs hr

theorem append (h : Due p ws) (hv : Due p vs) : Due p (ws ++ vs) := by
  induction h with
  | done => exact hv
  | next hw hinner _ _ ih => exact .next hw hinner (ih hv)
  | @derive p reported name existing rest _ _ ihok ihfail =>
    refine .derive (fun q hq hb => ihok q hq hb (hv.evolves hq)) fun r us hus => ?_
    have hus : Machine.recover (rest ++ vs) = some (r, us) := hus
    rw [recover_append] at hus
    cases hrest : Machine.recover rest with
    | none =>
      rw [hrest] at hus
      exact hv.recover hus
    | some left =>
      rw [hrest] at hus
      cases hus
      exact ihfail _ _ hrest hv

/-- The handlers that wait for a plugin. -/
theorem handlers {hs : List Handler} (h : ∀ x ∈ hs, Due p (workOf x.reported x.body)) : Due p (hs.map .handler) := by
  induction hs with
  | nil => exact .done
  | cons x hs ih =>
    refine .next trivial (h x (List.mem_cons_self ..)) (ih fun y hy => ?_)
    exact h y (List.mem_cons_of_mem _ hy)

theorem workOf {body : List Step} (reported : Bool)
    (h : ∀ s ∈ body, ∀ reported rest, Due p rest → Due p (.step reported s :: rest)) :
    Due p (Machine.workOf reported body) := by
  induction body with
  | nil => exact .done
  | cons s body ih =>
    refine h s (List.mem_cons_self ..) reported _ (ih fun t ht => ?_)
    exact h t (List.mem_cons_of_mem _ ht)

end Due

/-- What the plugin for ahead-of-time processing does once the Java conventions are there: it wires the tasks only
    if both source sets they fill could be derived. -/
theorem due_deriveSourceSets (p : Project) : Due p (workOf false Plugin.deriveSourceSets) := by
  refine .derive (fun q _ haot => .derive (fun r hr haotTest => ?_) nofun) nofun
  have haot : r.Built ProcessingKind.application.derived := haot.evolves hr
  have haotTest : r.Built (ProcessingKind.tests main).derived := haotTest
  refine .next trivial ?_ .done
  refine .next (.inl rfl) .done (.next (.inr ⟨rfl, haot⟩) .done ?_)
  exact .next (.inl rfl) .done (.next (.inr ⟨rfl, haotTest⟩) .done .done)

/-- A conventional step may be done at any time. -/
theorem Step.Conventional.due {s : Step} (h : s.Conventional) (p : Project) (reported : Bool) (rest : List Work)
    (hrest : Due p rest) : Due p (.step reported s :: rest) := by
  induction h generalizing p reported rest with
  | act ha => exact .next (.inl ha) .done hrest
  | apply id inner _ ih => exact .next trivial (.workOf inner fun s hs r ws hws => ih s hs p r ws hws) hrest
  | withPlugin id inner _ ih => exact .next trivial (.workOf inner fun s hs r ws hws => ih s hs p r ws hws) hrest
  | attempt inner _ ih => exact .next trivial (.workOf inner fun s hs r ws hws => ih s hs p r ws hws) hrest
  | processing => exact .next trivial (due_deriveSourceSets p) hrest

/-! ## One round -/

/-- The project is conventional, and what is left to do is due, also for the handlers that wait. -/
structure Machine.Conforms (m : Machine) : Prop where
  project : m.workspace.project.Conventional
  work : Due m.workspace.project m.work
  waiting : ∀ e ∈ m.plugins.waiting, Due m.workspace.project (workOf e.2.reported e.2.body)

namespace Machine

theorem Conforms.report {m : Machine} (h : m.Conforms) (reported : Bool) (a : Answer) : (m.report reported a).Conforms := by
  cases reported
  · exact h
  · exact ⟨h.project, h.work, h.waiting⟩

/-- After an action that kept the project conventional the script goes on with what is due then. -/
theorem act_conforms {m : Machine} (hp : m.workspace.project.Conventional) {reported : Bool} {a : Action}
    {rest : List Work} (ha : Keeps (Workspace.On (Preserves Conventional)) (a.run m.plugins) m.workspace)
    (hok : ∀ answer w, a.run m.plugins m.workspace = .ok answer w → Due w.project rest)
    (hfail : ∀ r ws, recover rest = some (r, ws) → Due m.workspace.project ws)
    (hwait : ∀ e ∈ m.plugins.waiting, Due m.workspace.project (workOf e.2.reported e.2.body)) :
    (m.act reported a rest).Conforms := by
  have hevolves := Action.run_evolves m.plugins a m.workspace
  unfold act
  cases hr : a.run m.plugins m.workspace with
  | ok answer w =>
    have hw : Evolves m.workspace.project w.project := hevolves.of_ok hr
    refine Conforms.report ⟨?_, ?_, ?_⟩ reported answer
    · exact ha.of_ok hr hp
    · exact hok answer w hr
    · exact fun e he => (hwait e he).evolves hw
  | error e w =>
    have hw : Evolves m.workspace.project w.project := hevolves.of_error hr
    have hproject : w.project.Conventional := ha.of_error hr hp
    show (fail { m with workspace := w } e rest).Conforms
    unfold fail
    split
    · rename_i r ws hrec
      refine Conforms.report ⟨hproject, (hfail r ws hrec).evolves hw, ?_⟩ r _
      exact fun e he => (hwait e he).evolves hw
    · exact ⟨hproject, .done, fun e he => (hwait e he).evolves hw⟩

/-- A piece of work that is no action changes nothing but what is left to do. -/
theorem perform_conforms {m : Machine} (h : m.Conforms) {w : Work} {rest : List Work}
    (hw : w.Fit m.workspace.project) (hinner : Due m.workspace.project w.inner) (hrest : Due m.workspace.project rest) :
    (m.perform w rest).Conforms := by
  cases w with
  | step reported s =>
    cases s with
    | act a =>
      have ha : Keeps (Workspace.On (Preserves Conventional)) (a.run m.plugins) m.workspace := by
        rcases hw with ha | ha
        · exact Action.run_conventional m.plugins ha m.workspace
        · exact ha.run_conventional m.plugins
      have hevolves := Action.run_evolves m.plugins a m.workspace
      refine act_conforms h.project ha (fun answer v hr => ?_) (fun r ws hws => hrest.recover hws) h.waiting
      exact hrest.evolves (hevolves.of_ok hr)
    | apply id inner body =>
      simp only [perform]
      split
      · exact ⟨h.project, .next trivial .done hrest, h.waiting⟩
      · exact ⟨h.project, hinner.append (.next trivial .done (.next trivial .done hrest)), h.waiting⟩
    | withPlugin id inner body =>
      simp only [perform]
      split
      · exact ⟨h.project, .next trivial hinner (.next trivial .done hrest), h.waiting⟩
      · refine ⟨h.project, .next trivial .done hrest, fun e he => ?_⟩
        rcases List.mem_append.mp he with he | he
        · exact h.waiting e he
        · rw [List.mem_singleton] at he
          subst he
          exact hinner
    | attempt inner body => exact ⟨h.project, hinner.append (.next trivial .done hrest), h.waiting⟩
  | handler x => exact ⟨h.project, hinner.append hrest, h.waiting⟩
  | release id =>
    refine ⟨h.project, Due.append (.handlers ?_) hrest, ?_⟩
    · intro x hx
      obtain ⟨e, he, rfl⟩ := List.mem_map.mp hx
      exact h.waiting e (List.mem_filter.mp he).1
    · intro e he
      exact h.waiting e (List.mem_filter.mp he).1
  | answer reported =>
    have hleft : Conforms { m with work := rest } := ⟨h.project, hrest, h.waiting⟩
    exact hleft.report reported _
  | attempted reported =>
    have hleft : Conforms { m with work := rest } := ⟨h.project, hrest, h.waiting⟩
    exact hleft.report reported _

theorem next_conforms {m : Machine} (h : m.Conforms) : m.next.Conforms := by
  unfold next
  cases hwork : m.work with
  | nil => exact h
  | cons w rest =>
    have hdue := h.work
    rw [hwork] at hdue
    cases hdue with
    | next hw hinner hrest => exact perform_conforms h hw hinner hrest
    | @derive _ reported name existing _ hok hfail =>
      have hevolves := Action.run_evolves m.plugins (.sourceSet (.derive name existing)) m.workspace
      have ha := Action.run_conventional m.plugins (a := .sourceSet (.derive name existing)) rfl m.workspace
      refine act_conforms h.project ha (fun answer v hr => ?_) hfail h.waiting
      obtain ⟨_, v', hderive, hanswer⟩ := bind_ok (show (do
        onProject (ConfigM.deriveSourceSet name existing)
        return Answer.ok : ScriptM Answer) m.workspace = .ok answer v from hr)
      cases hanswer
      exact hok v.project (hevolves.of_ok hr) (ConfigM.built_of_deriveSourceSet (onProject_eq_ok hderive))

theorem run_conforms (n : Nat) {m : Machine} (h : m.Conforms) : (m.run n).Conforms := by
  induction n generalizing m with
  | zero => exact h
  | succ n ih => exact ih (next_conforms h)

end Machine

/-! ## Whole scripts -/

/-- The project is conventional, and what the waiting handlers will do is due. -/
structure Session.Conforms (s : Session) : Prop where
  project : s.workspace.project.Conventional
  waiting : ∀ e ∈ s.plugins.waiting, Due s.workspace.project (workOf e.2.reported e.2.body)

namespace Session

theorem start_conforms (settings : Settings) : (start (.ofSettings settings)).Conforms := by
  refine ⟨⟨⟨fun a b h => ?_, fun t h => ?_, fun s h => ?_⟩, fun kind h => ?_⟩, fun e h => ?_⟩
  all_goals exact absurd h List.not_mem_nil

theorem machine_conforms {s : Session} (h : s.Conforms) {step : Step} (hs : step.Conventional) :
    (s.machine step).Conforms := ⟨h.project, hs.due _ false _ .done, h.waiting⟩

theorem perform_conforms {s : Session} (h : s.Conforms) {step : Step} (hs : step.Conventional) :
    (s.perform step).2.Conforms := by
  rw [perform_eq]
  have hm := Machine.run_conforms (s.machine step).weight (machine_conforms h hs)
  exact ⟨hm.project, hm.waiting⟩

theorem performAll_conforms {steps : List Step} (hs : ∀ step ∈ steps, step.Conventional) {s : Session}
    (h : s.Conforms) : (performAll steps s).2.Conforms := by
  induction steps generalizing s with
  | nil => exact h
  | cons step steps ih =>
    have hstep := hs step (List.mem_cons_self ..)
    exact ih (fun t ht => hs t (List.mem_cons_of_mem _ ht)) (perform_conforms h hstep)

end Session

end BuildGraph

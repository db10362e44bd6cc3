/-
  BuildGraph.Proofs.Script.Interleaving: the order in which plugins are applied and source sets created.

  The Java conventions, the plugin that knows the main class and ahead-of-time processing may be applied in any
  order and any number of times, with other source sets created in between. What processing does is then done
  when it is applied, when the conventions are, or when the main class becomes known (`Stage`). Whatever the
  order, the project divides into the parts that belong to the conventions and to processing, the task that
  knows the main class, and each of the other source sets; what is in each part does not depend on the order.

  - `Stands.move`: a plugin that is applied or a source set that is created brings the parts one further.
  - `Session.interleavings_alike`: two such scripts that do not fail leave the same project, but for the order
    of creation.
-/

import BuildGraph.Proofs.Project.Parts
import BuildGraph.Proofs.Script.Completion
import BuildGraph.Proofs.Script.Processing

namespace BuildGraph

open Machine Operation Outline Plugin Project ScriptM SourceSetName

/-! ## What the plugins make of their part -/

namespace Outline

/-- What there is by the Java conventions. -/
def conventions : Outline := blank.addConventions

/-- The conventions with the source sets for generated code. -/
def derived : Outline :=
  (conventions.derive ProcessingKind.application.derived main).derive (ProcessingKind.tests main).derived test

/-- Puts a processing task and its classpath in. -/
def process (kind : ProcessingKind) (input : String) (o : Outline) : Outline :=
  (o.addClasspath kind.taskName input).wire kind kind.derived input kind.classpath

/-- The conventions with all of processing. -/
def processed : Outline := (derived.process .application main).process (.tests main) test

/-- The task that knows the main class. -/
def mainClass : Outline := blank.set (.task ConfigM.mainClassTask) (.task .resolveMainClassName [])

end Outline

namespace Plugin

def derivations : List Action := [.derive .application main, .derive (.tests main) test]

def wirings : List Action :=
  [.createClasspath .application main, .wire .application main, .createClasspath (.tests main) test,
    .wire (.tests main) test]

end Plugin

section

variable {w v : Workspace} {o : Outline} {rest : List Outline} {ps : Plugins} {a : Action} {answer : Answer}
  {kind : ProcessingKind} {input : String}

theorem conventions_performed (h : w.project.Divides (blank :: rest))
    (hp : Performs [.processing .javaConventions] w v) : v.project.Divides (conventions :: rest) := by
  obtain _ | ⟨hrun, ⟨⟩⟩ := hp
  obtain ⟨_, hrun⟩ := onProject_answer_ok hrun
  exact h.applyJavaConventions hrun

theorem derive_run (h : w.project.Divides (o :: rest)) (hk : o.Has (.sourceSet input))
    (hrun : (Action.derive kind input).run ps w = .ok answer v) :
    v.project.Divides (o.derive kind.derived input :: rest) := by
  obtain ⟨_, hrun⟩ := onProject_answer_ok hrun
  exact h.deriveSourceSet hk hrun

theorem derivations_performed (h : w.project.Divides (conventions :: rest)) (hp : Performs derivations w v) :
    v.project.Divides (derived :: rest) := by
  obtain _ | ⟨hmain, _ | ⟨htest, ⟨⟩⟩⟩ := hp
  have hderived := derive_run h (show conventions.Has (.sourceSet main) by decide +kernel) hmain
  exact derive_run hderived (show Has _ (.sourceSet test) by decide +kernel) htest

theorem createClasspath_run (h : w.project.Divides (o :: rest))
    (hk : o.Has (.configuration (runtimeClasspath input)))
    (hrun : (Action.createClasspath kind input).run ps w = .ok answer v) :
    v.project.Divides (o.addClasspath kind.taskName input :: rest) := by
  obtain ⟨_, hrun⟩ := onProject_answer_ok hrun
  exact h.createProcessingClasspath hk hrun

theorem wire_run (h : w.project.Divides (o :: rest)) (hk : Divides.Wirable o kind.derived input kind.classpath)
    (hrun : (Action.wire kind input).run ps w = .ok answer v) :
    v.project.Divides (o.wire kind kind.derived input kind.classpath :: rest) := by
  obtain ⟨outputs, task, houtputs, hwire⟩ := wire_eq_ok hrun
  exact h.wireProcessingTask hk houtputs hwire

theorem wirings_performed (h : w.project.Divides (derived :: rest)) (hp : Performs wirings w v) :
    v.project.Divides (processed :: rest) := by
  obtain _ | ⟨hclasspath, _ | ⟨hwire, _ | ⟨hclasspath', _ | ⟨hwire', ⟨⟩⟩⟩⟩⟩ := hp
  have happlication := wire_run (createClasspath_run h (by decide +kernel) hclasspath) (by decide +kernel) hwire
  exact wire_run (createClasspath_run happlication (by decide +kernel) hclasspath') (by decide +kernel) hwire'

theorem mainClass_performed {name : Option String} {parts : List Outline} (h : w.project.Divides parts)
    (hp : Performs [.processing (.mainClassTask name)] w v) : v.project.Divides (mainClass :: parts) := by
  obtain _ | ⟨hrun, ⟨⟩⟩ := hp
  obtain ⟨_, hrun⟩ := onProject_answer_ok hrun
  exact h.cons_blank.registerMainClassTask hrun

theorem create_performed {name : String} {parts : List Outline} (h : w.project.Divides parts)
    (hp : Performs [.sourceSet (.create name)] w v) : v.project.Divides (blank.addSourceSet name :: parts) := by
  obtain _ | ⟨hrun, ⟨⟩⟩ := hp
  obtain ⟨_, hrun⟩ := onProject_answer_ok hrun
  exact h.cons_blank.createSourceSet hrun

end

/-! ## What the plugins come to -/

namespace Plugins

variable {applied : List PluginId} {id other : PluginId} {h : Handler} {n : Nat}

theorem waitingFor_one : (⟨applied, [(id, h)], n⟩ : Plugins).waitingFor other = if id = other then [h] else [] := by
  by_cases ho : id = other <;> simp [waitingFor, ho]

theorem dismiss_one : (⟨applied, [(id, h)], n⟩ : Plugins).dismiss other =
    ⟨applied, if id = other then [] else [(id, h)], n⟩ := by
  by_cases ho : id = other <;> simp [dismiss, ho]

end Plugins

namespace Completes

variable {ps qs : Plugins} {applied : List PluginId} {rest : List Work} {bs : List Action} {ticket n : Nat}
  {reported : Bool} {id : PluginId} {body : List Step}

/-- The handler that derives the source sets has the wiring wait for the main class. -/
theorem derive_waits (hboot : bootId ∉ ps.applied)
    (h : Completes (ps.enqueue bootId ⟨ps.registered, false, wireProcessing⟩).countHandler rest bs qs) :
    Completes ps (.handler ⟨ticket, reported, deriveSourceSets⟩ :: rest) (derivations ++ bs) qs := by
  have hwait : Completes ps (.step reported (.withPlugin bootId false wireProcessing) :: rest) bs qs :=
    .queued hboot (.answered h)
  exact .started (hwait.acts reported derivations)

/-- If the main class is known, it wires the tasks right away. -/
theorem derive_wires (hboot : bootId ∈ ps.applied) (h : Completes ps.countHandler rest bs qs) :
    Completes ps (.handler ⟨ticket, reported, deriveSourceSets⟩ :: rest) (derivations ++ (wirings ++ bs)) qs := by
  have hwire : Completes ps (.step reported (.withPlugin bootId false wireProcessing) :: rest) (wirings ++ bs) qs :=
    .immediate hboot (.started (acts (.answered h) false wirings))
  exact .started (hwire.acts reported derivations)

/-- A plugin that is applied is not applied again. -/
theorem again {reported : Bool} {body : List Step} (hid : id ∈ ps.applied) :
    Completes ps [.step false (.apply id reported body)] [] ps := .appliedAgain hid (.answered .nil)

/-- No handler waits for a plugin. -/
theorem settled (hnone : ps.waitingFor id = []) (hdismiss : ps.dismiss id = ps) :
    Completes ps [.release id, .answer false] [] ps := by
  refine .released ?_
  rw [hnone, hdismiss]
  exact .answered .nil

/-- A plugin for which no handler waits. -/
theorem of_action {a : Action} (hid : id ∉ ps.applied) (hnone : (ps.markApplied id).waitingFor id = [])
    (hdismiss : (ps.markApplied id).dismiss id = ps.markApplied id) :
    Completes ps [.step false (.apply id false [.act a])] [a] (ps.markApplied id) :=
  .applied hid (.act (.settled hnone hdismiss))

/-- A plugin for which one handler waits. -/
theorem of_handler {a : Action} {h : Handler} (hid : id ∉ applied)
    (hrest : Completes ⟨applied ++ [id], [], n⟩ [.handler h, .answer false] bs qs) :
    Completes ⟨applied, [(id, h)], n⟩ [.step false (.apply id false [.act a])] (a :: bs) qs := by
  refine .applied hid (.act (.released ?_))
  simp only [Plugins.markApplied, Plugins.waitingFor_one, Plugins.dismiss_one, if_true]
  exact hrest

end Completes

/-! ## How far it has come -/

/-- The handler that waits, and what there is of the conventions and of processing, depending on the plugins that are
    applied. -/
inductive Stage (applied : List PluginId) : List (PluginId × Handler) → List Outline → Prop
  | nothing : javaId ∉ applied → aotId ∉ applied → Stage applied [] []
  | conventions : javaId ∈ applied → aotId ∉ applied → Stage applied [] [conventions]
  | derivationWaits {ticket : Nat} {reported : Bool} : javaId ∉ applied → aotId ∈ applied →
    Stage applied [(javaId, ⟨ticket, reported, deriveSourceSets⟩)] []
  | wiringWaits {ticket : Nat} {reported : Bool} : javaId ∈ applied → aotId ∈ applied → bootId ∉ applied →
    Stage applied [(bootId, ⟨ticket, reported, wireProcessing⟩)] [derived]
  | processed : javaId ∈ applied → aotId ∈ applied → bootId ∈ applied → Stage applied [] [processed]

/-- The parts besides those of the conventions and of processing. -/
def otherParts (applied : List PluginId) (created : List String) : List Outline :=
  (if bootId ∈ applied then [mainClass] else []) ++ created.map fun name => blank.addSourceSet name

/-- The plugins are at some stage, and the project divides into what there is then and the other parts. -/
def Session.Stands (s : Session) (created : List String) : Prop :=
  ∃ core, Stage s.plugins.applied s.plugins.waiting core ∧
    s.workspace.project.Divides (core ++ otherParts s.plugins.applied created)

/-- One more plugin is applied, and the others as before. -/
theorem mem_snoc {applied : List PluginId} {id new : PluginId} : id ∈ applied ++ [new] ↔ id ∈ applied ∨ id = new := by simp

theorem mem_snoc_of_ne {applied : List PluginId} {id new : PluginId} (hne : id ≠ new) (h : id ∉ applied) :
    id ∉ applied ++ [new] := fun hmem => (mem_snoc.mp hmem).elim h hne

theorem otherParts_snoc {applied : List PluginId} {created : List String} {id : PluginId} (h : bootId ≠ id) :
    otherParts (applied ++ [id]) created = otherParts applied created := by
  simp [otherParts, h]

namespace Session.Stands

variable {s : Session} {created : List String}

/-- How it stands after a step is told by the actions the step comes to. -/
theorem of_performs {step : Step} {qs : Plugins} {as : List Action} (h : Completes s.plugins [.step false step] as qs)
    (hok : (s.perform step).1.result.isOk = true)
    (hnew : ∀ v, Performs as s.workspace v → Stands ⟨v, qs⟩ created) : (s.perform step).2.Stands created := by
  obtain ⟨rfl, hperforms⟩ := perform_of_completes h hok
  exact hnew _ hperforms

theorem again {id : PluginId} {reported : Bool} {body : List Step} (h : s.Stands created) (hid : id ∈ s.plugins.applied)
    (hok : (s.perform (.apply id reported body)).1.result.isOk = true) :
    (s.perform (.apply id reported body)).2.Stands created := by
  refine of_performs (.again hid) hok fun v hv => ?_
  cases hv
  exact h

theorem java (h : s.Stands created) (hok : (s.perform Plugin.java.step).1.result.isOk = true) :
    (s.perform Plugin.java.step).2.Stands created := by
  have ⟨core, hstage, hparts⟩ := h
  obtain ⟨w, applied, waiting, n⟩ := s
  have hjavaId : javaId ∈ applied ++ [javaId] := mem_snoc.mpr (.inr rfl)
  have hother : otherParts (applied ++ [javaId]) created = otherParts applied created := otherParts_snoc (by decide)
  cases hstage with
  | conventions hjava => exact h.again hjava hok
  | wiringWaits hjava => exact h.again hjava hok
  | processed hjava => exact h.again hjava hok
  | nothing hjava haot =>
    refine of_performs (.of_action hjava rfl rfl) hok fun v hv => ?_
    refine ⟨_, .conventions hjavaId (mem_snoc_of_ne (by decide) haot), hother ▸ ?_⟩
    exact conventions_performed hparts.cons_blank hv
  | derivationWaits hjava haot =>
    -- what waits for the conventions runs right after them, and goes on if the main class is known
    by_cases hboot : bootId ∈ applied
    · refine of_performs (.of_handler hjava (.derive_wires (mem_snoc.mpr (.inl hboot)) (.answered .nil))) hok
        fun v hv => ?_
      obtain ⟨_, hconventions, hv⟩ := Performs.split [_] hv
      obtain ⟨_, hderivations, hv⟩ := Performs.split derivations hv
      obtain ⟨_, hwirings, hv⟩ := Performs.split wirings hv
      cases hv
      refine ⟨_, .processed hjavaId (mem_snoc.mpr (.inl haot)) (mem_snoc.mpr (.inl hboot)), hother ▸ ?_⟩
      have hderived := derivations_performed (conventions_performed hparts.cons_blank hconventions) hderivations
      exact wirings_performed hderived hwirings
    · refine of_performs (.of_handler hjava (.derive_waits (mem_snoc_of_ne (by decide) hboot) (.answered .nil))) hok
        fun v hv => ?_
      obtain ⟨_, hconventions, hv⟩ := Performs.split [_] hv
      obtain ⟨_, hderivations, hv⟩ := Performs.split derivations hv
      cases hv
      refine ⟨_, .wiringWaits hjavaId (mem_snoc.mpr (.inl haot)) (mem_snoc_of_ne (by decide) hboot), hother ▸ ?_⟩
      exact derivations_performed (conventions_performed hparts.cons_blank hconventions) hderivations

theorem aot (h : s.Stands created) (hok : (s.perform Plugin.aot.step).1.result.isOk = true) :
    (s.perform Plugin.aot.step).2.Stands created := by
  have ⟨core, hstage, hparts⟩ := h
  obtain ⟨w, applied, waiting, n⟩ := s
  have haotId : aotId ∈ applied ++ [aotId] := mem_snoc.mpr (.inr rfl)
  have hother : otherParts (applied ++ [aotId]) created = otherParts applied created := otherParts_snoc (by decide)
  cases hstage with
  | derivationWaits _ haot => exact h.again haot hok
  | wiringWaits _ haot => exact h.again haot hok
  | processed _ haot => exact h.again haot hok
  | nothing hjava haot =>
    have hjava' : javaId ∉ applied ++ [aotId] := mem_snoc_of_ne (by decide) hjava
    refine of_performs (.applied haot (.queued hjava' (.answered (.settled ?_ ?_)))) hok fun v hv => ?_
    · exact Plugins.waitingFor_one
    · exact Plugins.dismiss_one
    cases hv
    exact ⟨_, .derivationWaits hjava' haotId, hother ▸ hparts⟩
  | conventions hjava haot =>
    have hjava' : javaId ∈ applied ++ [aotId] := mem_snoc.mpr (.inl hjava)
    by_cases hboot : bootId ∈ applied
    · have hboot' : bootId ∈ applied ++ [aotId] := mem_snoc.mpr (.inl hboot)
      refine of_performs (.applied haot (.immediate hjava' (.derive_wires hboot' (.answered (.settled rfl rfl))))) hok
        fun v hv => ?_
      obtain ⟨_, hderivations, hv⟩ := Performs.split derivations hv
      obtain ⟨_, hwirings, hv⟩ := Performs.split wirings hv
      cases hv
      refine ⟨_, .processed hjava' haotId hboot', hother ▸ ?_⟩
      exact wirings_performed (derivations_performed hparts hderivations) hwirings
    · have hboot' : bootId ∉ applied ++ [aotId] := mem_snoc_of_ne (by decide) hboot
      refine of_performs (.applied haot (.immediate hjava' (.derive_waits hboot' (.answered (.settled ?_ ?_))))) hok
        fun v hv => ?_
      · exact Plugins.waitingFor_one
      · exact Plugins.dismiss_one
      obtain ⟨_, hderivations, hv⟩ := Performs.split derivations hv
      cases hv
      exact ⟨_, .wiringWaits hjava' haotId hboot', hother ▸ derivations_performed hparts hderivations⟩

/-- The task that knows the main class comes first among the other parts. -/
theorem mainClass_first {w v : Workspace} {applied : List PluginId} {core : List Outline} {name : Option String}
    (hboot : bootId ∉ applied) (h : w.project.Divides (core ++ otherParts applied created))
    (hp : Performs [.processing (.mainClassTask name)] w v) :
    v.project.Divides (core ++ otherParts (applied ++ [bootId]) created) := by
  have hwith : otherParts (applied ++ [bootId]) created = mainClass :: otherParts applied created := by
    simp [otherParts, hboot]
  rw [hwith]
  exact (mainClass_performed h hp).perm List.perm_middle.symm

theorem boot {mainClass : Option String} (h : s.Stands created)
    (hok : (s.perform (Plugin.boot mainClass).step).1.result.isOk = true) :
    (s.perform (Plugin.boot mainClass).step).2.Stands created := by
  by_cases hboot : bootId ∈ s.plugins.applied
  · exact h.again hboot hok
  obtain ⟨core, hstage, hparts⟩ := h
  obtain ⟨w, applied, waiting, n⟩ := s
  have hbootId : bootId ∈ applied ++ [bootId] := mem_snoc.mpr (.inr rfl)
  have hjavaNe : javaId ≠ bootId := by decide
  have haotNe : aotId ≠ bootId := by decide
  cases hstage with
  | processed _ _ hboot' => exact absurd hboot' hboot
  | nothing hjava haot =>
    refine of_performs (.of_action hboot rfl rfl) hok fun v hv => ?_
    exact ⟨_, .nothing (mem_snoc_of_ne hjavaNe hjava) (mem_snoc_of_ne haotNe haot), mainClass_first hboot hparts hv⟩
  | conventions hjava haot =>
    refine of_performs (.of_action hboot rfl rfl) hok fun v hv => ?_
    exact ⟨_, .conventions (mem_snoc.mpr (.inl hjava)) (mem_snoc_of_ne haotNe haot), mainClass_first hboot hparts hv⟩
  | derivationWaits hjava haot =>
    refine of_performs (.of_action hboot ?_ ?_) hok fun v hv => ?_
    · exact Plugins.waitingFor_one
    · exact Plugins.dismiss_one
    exact ⟨_, .derivationWaits (mem_snoc_of_ne hjavaNe hjava) (mem_snoc.mpr (.inl haot)), mainClass_first hboot hparts hv⟩
  | wiringWaits hjava haot =>
    refine of_performs (.of_handler hboot (.started (.acts (.answered .nil) _ wirings))) hok fun v hv => ?_
    obtain ⟨_, hmain, hv⟩ := Performs.split [_] hv
    obtain ⟨_, hwirings, hv⟩ := Performs.split wirings hv
    cases hv
    refine ⟨_, .processed (mem_snoc.mpr (.inl hjava)) (mem_snoc.mpr (.inl haot)) hbootId, ?_⟩
    exact wirings_performed (mainClass_first hboot hparts hmain) hwirings

theorem create {name : String} (h : s.Stands created)
    (hok : (s.perform (.act (.sourceSet (.create name)))).1.result.isOk = true) :
    (s.perform (.act (.sourceSet (.create name)))).2.Stands (created ++ [name]) := by
  obtain ⟨core, hstage, hparts⟩ := h
  refine of_performs (.act .nil) hok fun v hv => ⟨core, hstage, ?_⟩
  have hsnoc : core ++ otherParts s.plugins.applied (created ++ [name]) =
      core ++ otherParts s.plugins.applied created ++ [blank.addSourceSet name] := by simp [otherParts]
  rw [hsnoc]
  exact (create_performed hparts hv).perm (List.perm_append_singleton _ _).symm

end Session.Stands

/-! ## Scripts in any order -/

/-- A plugin is applied or a source set created. -/
inductive Move where
  | java
  | aot
  | boot
  | sourceSet (name : String)
  deriving DecidableEq, Repr

namespace Move

def step (mainClass : Option String) : Move → Step
  | .java => Plugin.java.step
  | .aot => Plugin.aot.step
  | .boot => (Plugin.boot mainClass).step
  | .sourceSet name => .act (.sourceSet (.create name))

/-- The source set that is created. -/
def created : Move → Option String
  | .sourceSet name => some name
  | _ => none

end Move

/-- Every plugin is applied, perhaps more than once, and source sets with the given names are created in between. -/
structure Interleaves (moves : List Move) (names : List String) : Prop where
  java : .java ∈ moves
  aot : .aot ∈ moves
  boot : .boot ∈ moves
  creates : (moves.filterMap Move.created).Perm names

instance (moves : List Move) (names : List String) : Decidable (Interleaves moves names) :=
  decidable_of_iff (.java ∈ moves ∧ .aot ∈ moves ∧ .boot ∈ moves ∧ (moves.filterMap Move.created).Perm names)
    ⟨fun ⟨hjava, haot, hboot, hcreates⟩ => ⟨hjava, haot, hboot, hcreates⟩, fun h => ⟨h.java, h.aot, h.boot, h.creates⟩⟩

namespace Session

/-- None of the steps fails. -/
def Succeeds (steps : List Step) (s : Session) : Prop := ∀ report ∈ (performAll steps s).1, report.result.isOk = true

instance (steps : List Step) (s : Session) : Decidable (Succeeds steps s) :=
  inferInstanceAs (Decidable (∀ report ∈ (performAll steps s).1, _))

namespace Stands

variable {s : Session} {created : List String} {mainClass : Option String}

theorem start (settings : Settings) : (start (.ofSettings settings)).Stands [] := by
  have hblank : (ofSettings settings).outline = blank := by
    funext k
    cases k <;> rfl
  refine ⟨_, .nothing List.not_mem_nil List.not_mem_nil, (reachable_ofSettings settings).sound, ?_⟩
  exact hblank.symm ▸ Consists.nil

theorem move (m : Move) (h : s.Stands created) (hok : (s.perform (m.step mainClass)).1.result.isOk = true) :
    (s.perform (m.step mainClass)).2.Stands (created ++ m.created.toList) := by
  cases m with
  | java => exact (List.append_nil created).symm ▸ h.java hok
  | aot => exact (List.append_nil created).symm ▸ h.aot hok
  | boot => exact (List.append_nil created).symm ▸ h.boot hok
  | sourceSet name => exact h.create hok

theorem moves {moves : List Move} (h : s.Stands created) (hok : Succeeds (moves.map (·.step mainClass)) s) :
    (performAll (moves.map (·.step mainClass)) s).2.Stands (created ++ moves.filterMap Move.created) := by
  induction moves generalizing s created with
  | nil => exact (List.append_nil created).symm ▸ h
  | cons m moves ih =>
    obtain ⟨hfirst, hrest⟩ := List.forall_mem_cons.mp hok
    have hdone := ih (h.move m hfirst) hrest
    have hcreated : created ++ (m :: moves).filterMap Move.created =
        created ++ m.created.toList ++ moves.filterMap Move.created := by
      cases hm : m.created <;> simp [hm]
    rw [hcreated]
    exact hdone

/-- What there is once all plugins are applied. -/
theorem complete (h : s.Stands created) (hjava : javaId ∈ s.plugins.applied) (haot : aotId ∈ s.plugins.applied)
    (hboot : bootId ∈ s.plugins.applied) :
    s.workspace.project.Divides (processed :: Outline.mainClass :: created.map fun name => blank.addSourceSet name) := by
  obtain ⟨core, hstage, hparts⟩ := h
  obtain ⟨w, ⟨applied, waiting, n⟩⟩ := s
  rw [otherParts, if_pos hboot] at hparts
  cases hstage with
  | processed => exact hparts
  | nothing h => exact absurd hjava h
  | conventions _ h => exact absurd haot h
  | derivationWaits h => exact absurd hjava h
  | wiringWaits _ _ h => exact absurd hboot h

end Stands

/-- What a script leaves that interleaves the plugins with the creation of source sets. -/
theorem divides_of_interleaves {settings : Settings} {mainClass : Option String} {names : List String} {moves : List Move}
    (h : Interleaves moves names) (hok : Succeeds (moves.map (·.step mainClass)) (start (.ofSettings settings))) :
    (performAll (moves.map (·.step mainClass)) (start (.ofSettings settings))).2.workspace.project.Divides
      (processed :: Outline.mainClass :: names.map fun name => blank.addSourceSet name) := by
  have hstands := (Stands.start settings).moves hok
  have happlied : ∀ m ∈ moves, m.step mainClass ∈ moves.map (·.step mainClass) := fun m hm => List.mem_map_of_mem hm
  have hparts := hstands.complete (mem_applied_of_mem (happlied _ h.java)) (mem_applied_of_mem (happlied _ h.aot))
    (mem_applied_of_mem (happlied _ h.boot))
  exact hparts.perm (((h.creates.map _).cons _).cons _)

/-- Whichever way the plugins are applied and further source sets created, as long as nothing fails, the same project
    comes out, but for the order of creation. -/
theorem interleavings_alike (settings : Settings) (mainClass : Option String) (names : List String)
    (moves moves' : List Move) (h : Interleaves moves names) (h' : Interleaves moves' names)
    (hok : Succeeds (moves.map (·.step mainClass)) (start (.ofSettings settings)))
    (hok' : Succeeds (moves'.map (·.step mainClass)) (start (.ofSettings settings))) :
    (performAll (moves.map (·.step mainClass)) (start (.ofSettings settings))).2.workspace.project.Alike
      (performAll (moves'.map (·.step mainClass)) (start (.ofSettings settings))).2.workspace.project := by
  have hparts := divides_of_interleaves h hok
  have hparts' := divides_of_interleaves h' hok'
  exact alike_of_outline_eq hparts.sound hparts'.sound (hparts.consists.unique hparts'.consists)

/-- Ahead-of-time processing that waits for both of the others and that waits for neither come to the same, though what
    they create comes in another order. -/
theorem interleavings_alike_in_another_order :
    let project := fun (moves : List Move) =>
      (performAll (moves.map (·.step none)) (start (.ofSettings { name := "demo" }))).2.workspace.project
    let waiting := project [.aot, .java, .aot, .sourceSet "extra", .boot]
    let ready := project [.boot, .sourceSet "extra", .java, .java, .aot]
    waiting.Alike ready ∧ waiting.sourceSets.names = ["main", "test", "aot", "aotTest", "extra"] ∧
      ready.sourceSets.names = ["extra", "main", "test", "aot", "aotTest"] := by
  intro project waiting ready
  refine ⟨?_, by decide +kernel, by decide +kernel⟩
  exact interleavings_alike { name := "demo" } none ["extra"] [.aot, .java, .aot, .sourceSet "extra", .boot]
    [.boot, .sourceSet "extra", .java, .java, .aot] (by decide +kernel) (by decide +kernel) (by decide +kernel)
    (by decide +kernel)

end Session

end BuildGraph

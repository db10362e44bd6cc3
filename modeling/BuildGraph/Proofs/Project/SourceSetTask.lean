/-
  BuildGraph.Proofs.Project.SourceSetTask: the tasks of a source set that take something from it.

  Creating a source set registers a compile task and a resources task that each wait with one configurator. It reads the
  source set when the task is realized, at the place the source set was laid out at. `Awaits` says that such a task still
  is as it was registered.

  - `ConfigM.awaits_of_createSourceSet`: so it is when the source set has been created.
  - `Awaits.realizeWith`: it is realized with what the source set is like at that time, and nothing else changes.
  - `computing_of_task`: what is computed on demand keeps what is so of the source sets and one task, if realizing this
    task does.
-/

import BuildGraph.Proofs.Project.Arrangement
import BuildGraph.Proofs.Project.Evaluation
import BuildGraph.Proofs.Project.Operations
import BuildGraph.Proofs.Task.Realization

namespace BuildGraph

open Operation Project SourceSetName

/-! ## The two tasks -/

/-- A task of a source set that takes something from it when it is realized. -/
inductive SourceSetTask where
  /-- Takes the compile classpath and where classes go. -/
  | compile
  /-- Takes where resources go. -/
  | resources
  deriving DecidableEq, Repr

/-- What a compile task compiles. -/
def TaskBody.compiles? : TaskBody → Option JavaCompile
  | .javaCompile t => some t
  | _ => none

namespace SourceSetTask

variable (name : String) (unit : UnitId) (s : SourceSet)

def taskName : SourceSetTask → String
  | .compile => compileJava name
  | .resources => processResources name

def kind : SourceSetTask → TaskKind
  | .compile => .javaCompile
  | .resources => .processResources

/-- The body that the task of the source set `name` is registered with. -/
def blank : SourceSetTask → TaskBody
  | .compile => .javaCompile { sourceSet := name }
  | .resources => .processResources { sourceSet := name }

/-- The body with all that is taken from the source set. -/
def filled : SourceSetTask → TaskBody
  | .compile => .javaCompile { sourceSet := name, classpath := s.compileClasspath, destination := s.output.classesDirs }
  | .resources => .processResources { sourceSet := name, destination := some s.output.resourcesDir }

/-- What the task waits with: it takes from what was laid out at `unit`. -/
def reader : SourceSetTask → Configurator
  | .compile => .compileFrom unit
  | .resources => .resourcesFrom unit

/-- The task as it is registered. -/
def waiting (which : SourceSetTask) : Task :=
  { name := which.taskName name, body := which.blank name, pending := [which.reader unit] }

/-- The task once it is realized. -/
def taken (which : SourceSetTask) : Task :=
  { name := which.taskName name, body := which.filled name s, realized := true }

variable {name unit s} {which : SourceSetTask}

@[simp] theorem kind_blank : (which.blank name).kind = which.kind := by cases which <;> rfl

@[simp] theorem kind_filled : (which.filled name s).kind = which.kind := by cases which <;> rfl

theorem asksNothing_reader : (which.reader unit).AsksNothing := by cases which <;> trivial

/-- What is read is the source set as it is. -/
theorem effect_reader {p : Project} (hs : p.sourceSets.units[unit]? = some s) :
    (which.reader unit).effect p (which.blank name) = which.filled name s := by
  cases which <;> simp only [reader, blank, filled, Configurator.effect, hs]

end SourceSetTask

/-! ## Waiting for the source set -/

namespace Project

variable {p : Project} {name : String} {unit : UnitId} {s : SourceSet} {which : SourceSetTask}

/-- The task is as it was registered, and takes from where the source set `name` is laid out. -/
structure Awaits (p : Project) (which : SourceSetTask) (name : String) (unit : UnitId) : Prop where
  task : p.tasks.find? (which.taskName name) = some (which.waiting name unit)
  unit : p.sourceSets.unitOf? name = some unit

theorem Awaits.units (h : p.Awaits which name unit) : p.sourceSets.find? name = p.sourceSets.units[unit]? :=
  SourceSets.find?_of_lookup h.unit

/-- Whoever lets the task be realized, it takes from the source set as it is, and only the task changes. -/
theorem Awaits.realizeWith (h : p.Awaits which name unit) (hs : p.sourceSets.find? name = some s)
    (ask : ProviderId → ConfigM String) :
    ∃ r, ConfigM.realizeWith ask (which.taskName name) p = .ok (which.filled name s) { p with tasks := r } ∧
      r.find? (which.taskName name) = some (which.taken name s) ∧
      ∀ other, other ≠ which.taskName name → r.find? other = p.tasks.find? other := by
  have hbody : (which.waiting name unit).realizedBody p = which.filled name s :=
    SourceSetTask.effect_reader (h.units.symm.trans hs)
  have hasks : ∀ c ∈ (which.waiting name unit).pending, c.AsksNothing := by
    intro c hc
    rw [List.mem_singleton.mp hc]
    exact SourceSetTask.asksNothing_reader
  have halone := ConfigM.exists_realizeWith_of_unrealized ask h.task rfl hasks
  rw [hbody] at halone
  exact halone

/-! ## What is computed on demand -/

/-- Evaluation changes no source set, whatever is realized and computed. -/
theorem realizing_sourceSets : Realizing fun p q => q.sourceSets = p.sourceSets where
  refl _ := rfl
  trans h h' := h'.trans h
  mark _ _ := rfl
  body _ _ _ := rfl
  resolve _ _ _ := rfl

theorem sourceSets_after_realize (p : Project) (name : String) :
    (after (ConfigM.realize name) p).sourceSets = p.sourceSets := realizing_sourceSets.evaluating.realize name p

/-- Nor does realizing a task change another, unless its configurators compute a lazy value. -/
theorem find?_after_realize {t : Task} (ht : p.tasks.find? name = some t) (hasks : ∀ c ∈ t.pending, c.AsksNothing)
    {other : String} (hne : other ≠ name) : (after (ConfigM.realize name) p).tasks.find? other = p.tasks.find? other := by
  cases hr : t.realized with
  | true =>
    have hsame : ConfigM.realize name p = .ok t.body p := ConfigM.realizeWith_of_realized ht hr
    rw [after_of_ok hsame]
  | false =>
    rw [after_of_ok (ConfigM.realize_of_unrealized ht hr hasks)]
    exact (Tasks.find?_update (by exact fun _ => rfl) other).trans (if_neg hne)

section

variable {C : SourceSets → Option Task → Prop} {task : String}

/-- What is so of the source sets and one task. -/
abbrev Standing (C : SourceSets → Option Task → Prop) (task : String) : Project → Project → Prop :=
  Preserves fun p => C p.sourceSets (p.tasks.find? task)

/-- A change to another task. -/
theorem standing_update {f : Task → Task} (hf : ∀ t, (f t).name = t.name) (hne : name ≠ task) (p : Project) :
    Standing C task p { p with tasks := p.tasks.update name f } := by
  intro h
  show C p.sourceSets ((p.tasks.update name f).find? task)
  rw [Tasks.find?_update hf, if_neg (Ne.symm hne)]
  exact h

theorem evaluating_of_task
    (hown : ∀ ask p, C p.sourceSets (p.tasks.find? task) → Keeps (Standing C task) (ConfigM.realizeWith ask task) p) :
    Evaluating (Standing C task) where
  toFrame := preserves_frame _
  realizeWith hask name p := by
    by_cases hne : name = task
    · subst hne
      exact fun h => hown _ p h h
    · exact ConfigM.keeps_realizeWith (preserves_frame _) hask (standing_update (fun _ => rfl) hne)
        (fun p _ => standing_update (by exact fun _ => rfl) hne p) p
  resolve _ _ _ := id

/-- Configuring another task. -/
theorem configure_of_ne (hE : Evaluating (Standing C task)) (hne : name ≠ task) (cs : List Configurator) (p : Project) :
    Keeps (Standing C task) (ConfigM.configure name cs) p :=
  hE.configure (fun p _ => standing_update (by exact fun _ => rfl) hne p)
    (fun p _ => standing_update (by exact fun _ => rfl) hne p) cs p

end

/-- A realized task is left as it is. -/
theorem evaluating_of_realized {t : Task} {task : String} (hr : t.realized = true) :
    Evaluating (Standing (fun _ u => u = some t) task) :=
  evaluating_of_task fun _ _ ht => .of_eq_ok (ConfigM.realizeWith_of_realized ht hr) id

/-- As long as the source sets are these, the task waits or has taken from them. -/
def Settling (which : SourceSetTask) (name : String) (unit : UnitId) (s : SourceSet) (sets : SourceSets)
    (r : SourceSets) (t : Option Task) : Prop :=
  r = sets ∧ (t = some (which.waiting name unit) ∨ t = some (which.taken name s))

theorem evaluating_settling {sets : SourceSets} (hunit : sets.unitOf? name = some unit)
    (hs : sets.find? name = some s) :
    Evaluating (Standing (Settling which name unit s sets) (which.taskName name)) := by
  refine evaluating_of_task fun ask p h => ?_
  obtain ⟨hsets, hwaits | htaken⟩ := h
  · obtain ⟨r, hr, hfind, -⟩ := Awaits.realizeWith ⟨hwaits, hsets ▸ hunit⟩ (hsets ▸ hs) ask
    exact .of_eq_ok hr fun _ => ⟨hsets, .inr hfind⟩
  · exact .of_eq_ok (ConfigM.realizeWith_of_realized htaken rfl) id

end Project

/-! ## Creation -/

namespace ConfigM

variable {p q : Project} {name : String}

/-- A dependency between tasks is no change to a task. -/
theorem entries_of_dependsOn {dependent dependency : String} {u : Unit} (h : dependsOn dependent dependency p = .ok u q) :
    q.tasks.entries = p.tasks.entries := by
  cases h
  rfl

theorem find?_of_registerSourceSetTasks {unit : UnitId} {u : Unit} (h : registerSourceSetTasks name unit p = .ok u q)
    (which : SourceSetTask) : q.tasks.find? (which.taskName name) = some (which.waiting name unit) := by
  obtain ⟨q₁, q₂, q₃, q₄, h₁, h₂, h₃, h₄, h₅⟩ := registerSourceSetTasks_ok h
  obtain ⟨r₁, hr₁, rfl⟩ := onTasks_eq_ok h₁
  obtain ⟨r₂, hr₂, rfl⟩ := onTasks_eq_ok h₂
  obtain ⟨r₃, hr₃, rfl⟩ := onTasks_eq_ok h₃
  have hentries : q.tasks.entries = r₃.entries := by rw [entries_of_dependsOn h₅, entries_of_dependsOn h₄]
  rw [Tasks.find?, hentries]
  cases which with
  | compile => exact Tasks.find?_of_register hr₃ (Tasks.find?_of_register hr₂ (Tasks.find?_register_self hr₁))
  | resources => exact Tasks.find?_of_register hr₃ (Tasks.find?_register_self hr₂)

/-- The tasks of a source set that was just created wait for the source set. -/
theorem awaits_of_createSourceSet {u : Unit} (h : createSourceSet name p = .ok u q) (which : SourceSetTask) :
    ∃ unit, q.Awaits which name unit := by
  obtain ⟨q₁, q₂, -, hnew, htasks, hq₂, rfl⟩ := createSourceSet_ok h
  refine ⟨_, find?_of_registerSourceSetTasks htasks which, ?_⟩
  show (q₂.sourceSets.registered ++ [(name, q₁.sourceSets.nextUnit)]).lookup name = _
  have hnone : (q₁.sourceSets.layOut (conventionalSourceSet name)).registered.lookup name = none :=
    SourceSets.lookup_eq_none hnew
  rw [hq₂, List.lookup_append, hnone, Option.none_or, List.lookup_cons_self]

end ConfigM

end BuildGraph

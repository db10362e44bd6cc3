/-
  BuildGraph.Proofs.Configuration.Reach: every registry of configurations that can come about.

  Whoever creates a configuration may set it up in any way (`Course`): change it, look at it, let it
  extend others, go on after a refused extension or not, and fail at any point. The instructions of
  `create` are a special case (`create_eq_createBy`). A registry comes about by creating, extending,
  changing and declaring on configurations (`Reach`).

  - `Reach.sound`: such a registry is sound.
  - `Reach.extensions_exact`: its extensions have no cycle, and one more is refused exactly if it
    would close one, or if a configuration is missing; then nothing has changed.
-/

import BuildGraph.Project.Basic
import BuildGraph.Proofs.Configuration.Registry
import BuildGraph.Proofs.Files.Distinct

namespace BuildGraph.Configurations

/-! ## Setting up -/

/-- A change to a configuration that keeps its name and what is declared on it. -/
structure Edit where
  apply : Configuration → Configuration
  name_apply : ∀ c, (apply c).name = c.name
  dependencies_apply : ∀ c, (apply c).dependencies = c.dependencies

namespace Edit

def canBeConsumed (value : Bool) : Edit := ⟨fun c => { c with canBeConsumed := value }, fun _ => rfl, fun _ => rfl⟩

def canBeResolved (value : Bool) : Edit := ⟨fun c => { c with canBeResolved := value }, fun _ => rfl, fun _ => rfl⟩

def description (text : Option String) : Edit := ⟨fun c => { c with description := text }, fun _ => rfl, fun _ => rfl⟩

def attributes (f : AttributeSet → AttributeSet) : Edit :=
  ⟨fun c => { c with attributes := f c.attributes }, fun _ => rfl, fun _ => rfl⟩

end Edit

/-- What is done to a configuration while it is being created. -/
inductive Course where
  /-- Ends, with an error or without. -/
  | finish (verdict : Except ConfigError Unit)
  /-- Goes on as the configuration looks. -/
  | look (next : Configuration → Course)
  | edit (e : Edit) (next : Course)
  /-- Extends another configuration, and goes on as that went. -/
  | extend (parent : String) (next : Except ConfigError Unit → Course)

namespace Course

def run (name : String) : Course → Configurations → Except ConfigError Unit × Configurations
  | .finish verdict, r => (verdict, r)
  | .look next, r =>
    match r.find? name with
    | some c => run name (next c) r
    | none => (.error (.configurationNotFound name), r)
  | .edit e next, r => run name next (r.updateAll name e.apply)
  | .extend parent next, r =>
    match r.extend name parent with
    | .ok s => run name (next (.ok ())) s
    | .error e => run name (next (.error e)) r

/-- Instructions one after another, until one fails. -/
def ofSetup : List Setup → Course
  | [] => .finish (.ok ())
  | .canBeConsumed value :: rest => .edit (.canBeConsumed value) (ofSetup rest)
  | .canBeResolved value :: rest => .edit (.canBeResolved value) (ofSetup rest)
  | .description text :: rest => .edit (.description (some text)) (ofSetup rest)
  | .attribute key value :: rest => .edit (.attributes fun s => s.set key value) (ofSetup rest)
  | .copyAttributes source :: rest => .edit (.attributes fun s => source.copyTo s) (ofSetup rest)
  | .tellName :: rest => ofSetup rest
  | .extendsFrom parent :: rest =>
    .extend parent fun
      | .ok () => ofSetup rest
      | .error e => .finish (.error e)

theorem run_ofSetup (name : String) (setup : List Setup) (r : Configurations) :
    (ofSetup setup).run name r = runSetup name setup r := by
  induction setup generalizing r with
  | nil => rfl
  | cons s rest ih =>
    cases s with
    | extendsFrom parent =>
      simp only [ofSetup, run, runSetup, Setup.run]
      cases r.extend name parent with
      | error e => rfl
      | ok s => exact ih s
    | _ => exact ih _

end Course

/-- Creates a configuration and sets it up by a course. -/
def createBy (r : Configurations) (name : String) (course : Course) : Except ConfigError Unit × Configurations :=
  match r.declare name with
  | .error e => (.error e, r)
  | .ok s => course.run name s

theorem create_eq_createBy (r : Configurations) (name : String) (setup : List Setup) :
    r.create name setup = r.createBy name (.ofSetup setup) := by
  unfold create createBy
  cases r.declare name with
  | error e => rfl
  | ok s => exact (Course.run_ofSetup name setup s).symm

/-! ## Every registry -/

/-- A registry that came about by creating configurations, changing them, and adding dependencies and
    extensions. -/
inductive Reach : Configurations → Prop
  | empty : Reach {}
  | create {r : Configurations} (name : String) (course : Course) : Reach r → Reach (r.createBy name course).2
  | extend {r s : Configurations} {child parent : String} : Reach r → r.extend child parent = .ok s → Reach s
  | addDependency {r s : Configurations} {name : String} {d : Dependency} :
    Reach r → r.addDependency name d = .ok s → Reach s
  | edit {r : Configurations} (name : String) (e : Edit) : Reach r → Reach (r.updateAll name e.apply)

/-- How a registry can change, one step at a time. -/
inductive Step (r : Configurations) : Configurations → Prop
  | declare {s : Configurations} {name : String} : r.declare name = .ok s → Step r s
  | extend {s : Configurations} {child parent : String} : r.extend child parent = .ok s → Step r s
  | addDependency {s : Configurations} {name : String} {d : Dependency} : r.addDependency name d = .ok s → Step r s
  | edit (name : String) (e : Edit) : Step r (r.updateAll name e.apply)

/-! ## What stays -/

namespace Step

variable {r s : Configurations}

/-- New configurations come after those that are there. -/
theorem names (h : r.Step s) : r.names <+: s.names := by
  cases h with
  | declare hd =>
    obtain ⟨-, rfl⟩ := declare_eq_ok hd
    show r.entries.map (·.name) <+: (r.entries ++ _).map (·.name)
    rw [List.map_append]
    exact List.prefix_append ..
  | extend hx =>
    obtain ⟨-, -, -, -, rfl⟩ := extend_eq_ok hx
    exact List.prefix_rfl
  | addDependency hd =>
    rw [update_eq_ok hd, Configurations.names_updateAll]
    exact fun _ => rfl
  | edit other e =>
    rw [names_updateAll e.name_apply]

/-- No step takes an extension away. -/
theorem extensions (h : r.Step s) : r.extensions <+: s.extensions := by
  cases h with
  | declare hd =>
    obtain ⟨-, rfl⟩ := declare_eq_ok hd
    exact List.prefix_rfl
  | extend hx =>
    obtain ⟨-, -, -, -, rfl⟩ := extend_eq_ok hx
    exact Digraph.prefix_connect ..
  | addDependency hd =>
    rw [update_eq_ok hd]
    exact List.prefix_rfl
  | edit => exact List.prefix_rfl

/-- No step takes a dependency away. -/
theorem declaredOn (h : r.Step s) (name : String) : r.declaredOn name <+: s.declaredOn name := by
  cases h with
  | declare hd =>
    cases hc : r.find? name with
    | none =>
      rw [Configurations.declaredOn, hc]
      exact List.nil_prefix
    | some c =>
      rw [declaredOn_of_find? hc, declaredOn_of_find? (find?_of_declare hd hc)]
  | extend hx =>
    obtain ⟨-, -, -, -, rfl⟩ := extend_eq_ok hx
    exact List.prefix_rfl
  | addDependency hx =>
    rw [update_eq_ok hx]
    exact prefix_declaredOn_updateAll _ name (fun _ => rfl) fun _ => Distinct.prefix_add ..
  | edit other e =>
    refine prefix_declaredOn_updateAll other name e.name_apply fun c => ?_
    rw [e.dependencies_apply]

end Step

theorem Reach.step {r s : Configurations} (h : Reach r) (hs : r.Step s) : Reach s := by
  cases hs with
  | @declare _ name hd =>
    have := h.create name (.finish (.ok ()))
    rw [createBy, hd] at this
    exact this
  | extend he => exact h.extend he
  | addDependency hd => exact h.addDependency hd
  | edit name e => exact h.edit name e

theorem Sound.edit {r : Configurations} (h : r.Sound) (name : String) (e : Edit) : (r.updateAll name e.apply).Sound :=
  h.of_names_extensions (names_updateAll e.name_apply) rfl

theorem Sound.run {r : Configurations} (h : r.Sound) (name : String) (course : Course) : (course.run name r).2.Sound := by
  induction course generalizing r with
  | finish verdict => exact h
  | look next ih =>
    unfold Course.run
    split
    · exact ih _ h
    · exact h
  | edit e next ih => exact ih (h.edit name e)
  | extend parent next ih =>
    unfold Course.run
    split
    · rename_i s hs
      exact ih _ (h.extend hs)
    · exact ih _ h

theorem Sound.createBy {r : Configurations} (h : r.Sound) (name : String) (course : Course) :
    (r.createBy name course).2.Sound := by
  unfold Configurations.createBy
  cases hs : r.declare name with
  | error e => exact h
  | ok s => exact (h.declare hs).run name course

namespace Reach

variable {r : Configurations}

theorem sound (h : Reach r) : r.Sound := by
  induction h with
  | empty => exact .empty
  | create name course _ ih => exact ih.createBy name course
  | extend _ hs ih => exact ih.extend hs
  | addDependency _ hs ih =>
    rw [update_eq_ok hs]
    refine ih.of_names_extensions (names_updateAll fun _ => rfl) rfl
  | edit name e _ ih => exact ih.edit name e

/-- In every registry, extensions have no cycle, no configuration extends itself, no extension is recorded twice,
    and each name finds the one configuration called so. An extension is refused if and only if it would close a
    cycle or one of the two is missing, and a refused one changes nothing. -/
theorem extensions_exact (h : Reach r) :
    (r.graph.Acyclic ∧ (∀ a, (a, a) ∉ r.extensions) ∧ r.extensions.Nodup ∧
        ∀ a b, (a, b) ∈ r.extensions → a ∈ r.names ∧ b ∈ r.names) ∧
      (r.names.Nodup ∧ ∀ name c, r.find? name = some c ↔ c ∈ r.entries ∧ c.name = name) ∧
      (∀ child parent,
        (child ∉ r.names → r.extend child parent = .error (.configurationNotFound child)) ∧
        (child ∈ r.names → parent ∉ r.names → r.extend child parent = .error (.configurationNotFound parent)) ∧
        (child ∈ r.names → parent ∈ r.names →
          (r.extend child parent = .error (.cyclicExtension child parent) ↔
            child = parent ∨ r.graph.Reaches parent child) ∧
          ((∃ s, r.extend child parent = .ok s) ↔ ¬ (child = parent ∨ r.graph.Reaches parent child)))) ∧
      (∀ (p q : Project) child parent e, p.configurations = r →
        ConfigM.extendConfiguration child parent p = .error e q → q = p) ∧
      ∀ name parent e next, r.extend name parent = .error e →
        (Course.extend parent next).run name r = (next (.error e)).run name r := by
  have hs := h.sound
  refine ⟨⟨hs.acyclic, hs.loopless, hs.once, fun a b hab => ⟨hs.source a b hab, hs.target a b hab⟩⟩,
    ⟨hs.nodup, fun name c => ⟨fun hc => ⟨mem_of_find? hc, name_of_find? hc⟩, ?_⟩⟩, fun child parent => ?_, ?_, ?_⟩
  · rintro ⟨hc, rfl⟩
    exact Named.find?_of_mem hs.nodup hc
  · exact ⟨extend_of_child_missing, extend_of_parent_missing,
      fun hc hp => ⟨extend_eq_cyclic_iff hc hp, extend_eq_ok_iff hc hp⟩⟩
  · rintro p q child parent e rfl hq
    unfold ConfigM.extendConfiguration ConfigM.onConfigurations at hq
    split at hq
    · cases hq
    · cases hq
      rfl
  · intro name parent e next he
    rw [Course.run, he]

/-- The runtime classpath extends the implementation, so the implementation may not extend it. -/
theorem extensions_exact_of_classpath :
    ∃ r, Reach r ∧ r.extensions = [("runtimeClasspath", "implementation")] ∧
      r.extend "implementation" "runtimeClasspath" =
        .error (.cyclicExtension "implementation" "runtimeClasspath") := by
  have h₁ := Reach.create "implementation" (.finish (.ok ())) .empty
  have h₂ := Reach.create "runtimeClasspath" (.extend "implementation" .finish) h₁
  refine ⟨_, h₂, by decide, ?_⟩
  obtain ⟨-, -, hextend, -⟩ := Reach.extensions_exact h₂
  obtain ⟨-, -, hboth⟩ := hextend "implementation" "runtimeClasspath"
  exact (hboth (by decide) (by decide)).1.mpr (.inr (.edge (by decide)))

end Reach

end BuildGraph.Configurations

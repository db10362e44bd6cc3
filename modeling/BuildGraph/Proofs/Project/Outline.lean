/-
  BuildGraph.Proofs.Project.Outline: what a project has under which name, and the parts it falls into.

  The outline of a project tells what it has under each name: a source set, a configuration with those it
  extends, or a task with those it depends on. It does not tell in which order these were created. Operations
  on a project put something under a new name or change what is under one; what they do to the outline depends
  on nothing but the outline.

  An outline consists of parts that have no name in common (`Consists`). What is done to one part leaves the
  others as they are, so things that have nothing to do with each other can be done in any order.

  - `Consists.set` / `Consists.change`: what is done to a part of an outline is done to the whole.
  - `Consists.unique`: there is one outline with given parts, in whatever order they are given.
  - `alike_of_outline_eq`: two projects with the same outline differ in nothing but the order of creation.
-/

import BuildGraph.Proofs.Project.Operations

namespace BuildGraph

open Operation Project

/-! ## Outlines -/

/-- What a project has names for. -/
inductive Key where
  | sourceSet (name : String)
  | configuration (name : String)
  | task (name : String)
  deriving DecidableEq, Repr

/-- What a project has under a name. -/
inductive Entry where
  | sourceSet (s : SourceSet)
  /-- A configuration, and what it extends in order. -/
  | configuration (c : Configuration) (parents : List String)
  /-- A task of the given type, and what it depends on in order of declaration. -/
  | task (kind : TaskKind) (dependencies : List String)

namespace Entry

def onSourceSet (f : SourceSet → SourceSet) : Entry → Entry
  | .sourceSet s => .sourceSet (f s)
  | e => e

def onConfiguration (f : Configuration → Configuration) : Entry → Entry
  | .configuration c parents => .configuration (f c) parents
  | e => e

/-- A configuration that has `d` declared on it. -/
def declaring (d : Dependency) : Entry → Entry :=
  onConfiguration fun c => { c with dependencies := Distinct.add c.dependencies d }

/-- A configuration that extends `parent` as well. -/
def extending (parent : String) : Entry → Entry
  | .configuration c parents => .configuration c (Distinct.add parents parent)
  | e => e

/-- A task that depends on `dependency` as well. -/
def awaiting (dependency : String) : Entry → Entry
  | .task kind dependencies => .task kind (Distinct.add dependencies dependency)
  | e => e

/-- What an instruction makes of the configuration being created. -/
def setUp : Configurations.Setup → Entry → Entry
  | .canBeConsumed value => onConfiguration fun c => { c with canBeConsumed := value }
  | .canBeResolved value => onConfiguration fun c => { c with canBeResolved := value }
  | .description text => onConfiguration fun c => { c with description := some text }
  | .attribute key value => onConfiguration fun c => { c with attributes := c.attributes.set key value }
  | .extendsFrom parent => extending parent
  | .copyAttributes source => onConfiguration fun c => { c with attributes := source.copyTo c.attributes }
  | .tellName => id

/-- The configuration `name` once it is set up. -/
def created (name : String) (setup : List Configurations.Setup) : Entry :=
  setup.foldl (fun e i => e.setUp i) (.configuration { name := name } [])

end Entry

/-- What there is under which name. -/
abbrev Outline := Key → Option Entry

namespace Outline

variable {o : Outline} {k k' : Key} {e : Entry} {f g : Entry → Entry}

/-- There is nothing under any name. -/
def blank : Outline := fun _ => none

def set (o : Outline) (k : Key) (e : Entry) : Outline := fun k' => if k' = k then some e else o k'

/-- Changes what is under `k`. -/
def change (o : Outline) (k : Key) (f : Entry → Entry) : Outline := fun k' => if k' = k then (o k').map f else o k'

/-- There is something under `k`. -/
def Has (o : Outline) (k : Key) : Prop := (o k).isSome = true

instance (o : Outline) (k : Key) : Decidable (o.Has k) := inferInstanceAs (Decidable (_ = true))

theorem has_iff : o.Has k ↔ ∃ e, o k = some e := Option.isSome_iff_exists

@[simp] theorem set_self (o : Outline) (k : Key) (e : Entry) : o.set k e k = some e := if_pos rfl

theorem set_of_ne (h : k' ≠ k) : o.set k e k' = o k' := if_neg h

/-- A change to what is there puts something else in its place. -/
theorem change_eq_set (h : o k = some e) : o.change k f = o.set k (f e) := by
  funext k'
  by_cases hk : k' = k
  · subst hk
    simp [change, set, h]
  · simp [change, set, hk]

@[simp] theorem has_set : (o.set k e).Has k' ↔ k' = k ∨ o.Has k' := by
  by_cases h : k' = k <;> simp [Has, set, h]

@[simp] theorem has_change : (o.change k f).Has k' ↔ o.Has k' := by
  by_cases h : k' = k <;> simp [Has, change, h]

end Outline

/-- What `r` has under `name`. -/
def SourceSets.entryOf? (r : SourceSets) (name : String) : Option Entry := (r.find? name).map .sourceSet

def Configurations.entryOf? (r : Configurations) (name : String) : Option Entry :=
  (r.find? name).map fun c => .configuration c (r.graph.successors name)

def Tasks.entryOf? (r : Tasks) (name : String) : Option Entry :=
  (r.find? name).map fun t => .task t.body.kind (r.graph.predecessors name)

namespace Project

/-- What a project has under which name. -/
def outline (p : Project) : Outline
  | .sourceSet name => p.sourceSets.entryOf? name
  | .configuration name => p.configurations.entryOf? name
  | .task name => p.tasks.entryOf? name

end Project

/-! ## What operations do to the registries -/

namespace Configurations

variable {r s : Configurations} {name child parent : String}

theorem entryOf?_declare (hr : r.Sound) (h : r.declare name = .ok s) (other : String) :
    s.entryOf? other = if other = name then some (.configuration { name := name } []) else r.entryOf? other := by
  rw [entryOf?, find?_declare h]
  obtain ⟨hnew, rfl⟩ := declare_eq_ok h
  split
  · rename_i ho
    have hparents : r.graph.successors other = [] :=
      List.eq_nil_iff_forall_not_mem.mpr fun b hb => hnew (ho ▸ hr.source _ _ (Digraph.mem_successors.mp hb))
    exact congrArg (fun parents => some (Entry.configuration { name := name } parents)) hparents
  · rfl

theorem entryOf?_updateAll {f : Configuration → Configuration} (hf : ∀ c, (f c).name = c.name) (other : String) :
    (r.updateAll name f).entryOf? other =
      if other = name then (r.entryOf? other).map (.onConfiguration f) else r.entryOf? other := by
  unfold entryOf?
  rw [find?_updateAll hf]
  split
  · cases r.find? other <;> rfl
  · rfl

theorem entryOf?_extend (h : r.extend child parent = .ok s) (other : String) :
    s.entryOf? other = if other = child then (r.entryOf? other).map (.extending parent) else r.entryOf? other := by
  obtain ⟨-, -, -, -, rfl⟩ := extend_eq_ok h
  show Option.map (fun c => Entry.configuration c (Digraph.successors ⟨r.names, _⟩ other)) (r.find? other) = _
  rw [Digraph.successors_connect]
  split
  · unfold entryOf?
    cases r.find? other <;> rfl
  · rfl

/-- An instruction changes what is under the name of the configuration being created. -/
theorem entryOf?_setUp {i : Setup} (h : i.run name r = .ok s) (other : String) :
    s.entryOf? other = if other = name then (r.entryOf? other).map (.setUp i) else r.entryOf? other := by
  cases i with
  | extendsFrom parent => exact entryOf?_extend h other
  | tellName =>
    cases h
    simp [Entry.setUp]
  | _ =>
    cases h
    refine entryOf?_updateAll ?_ other
    exact fun _ => rfl

theorem entryOf?_runSetup {setup : List Setup} {e : Entry} (he : r.entryOf? name = some e)
    (h : runSetup name setup r = (.ok (), s)) (other : String) :
    s.entryOf? other = if other = name then some (setup.foldl (fun e i => e.setUp i) e) else r.entryOf? other := by
  induction setup generalizing r e with
  | nil =>
    cases h
    split
    · rename_i ho
      rw [ho, he]
      rfl
    · rfl
  | cons i instructions ih =>
    rw [runSetup] at h
    cases hi : i.run name r with
    | error err =>
      rw [hi] at h
      cases h
    | ok t =>
      rw [hi] at h
      have ht : t.entryOf? name = some (e.setUp i) := by
        rw [entryOf?_setUp hi, if_pos rfl, he]
        rfl
      rw [ih ht h, entryOf?_setUp hi]
      split <;> rfl

end Configurations

namespace Tasks

variable {r s : Tasks} {name : String}

theorem entryOf?_register {body : TaskBody} {cs : List Configurator} (hr : r.Sound) (h : r.register name body cs = .ok s)
    (other : String) : s.entryOf? other = if other = name then some (.task body.kind []) else r.entryOf? other := by
  rw [entryOf?, find?_register h]
  obtain ⟨hnew, rfl⟩ := register_eq_ok h
  split
  · rename_i ho
    have hdependencies : r.graph.predecessors other = [] :=
      List.eq_nil_iff_forall_not_mem.mpr fun b hb => hnew (ho ▸ hr.target _ _ (Digraph.mem_predecessors.mp hb))
    exact congrArg (fun dependencies => some (Entry.task body.kind dependencies)) hdependencies
  · rfl

theorem entryOf?_dependsOn (r : Tasks) (dependent dependency other : String) :
    (r.dependsOn dependent dependency).entryOf? other =
      if other = dependent then (r.entryOf? other).map (.awaiting dependency) else r.entryOf? other := by
  show Option.map (fun t => Entry.task t.body.kind
    (Digraph.predecessors ⟨r.names, Digraph.connect r.edges dependency dependent⟩ other)) (r.find? other) = _
  rw [Digraph.predecessors_connect]
  split
  · unfold entryOf?
    cases r.find? other <;> rfl
  · rfl

end Tasks

namespace SourceSets

variable {r r' : SourceSets} {name : String}

theorem entryOf?_of_not_mem (h : name ∉ r.names) : r.entryOf? name = none := by
  unfold entryOf? find? unitOf?
  rw [lookup_eq_none h]
  rfl

/-- What is laid out is not there before it is registered. -/
theorem entryOf?_layOut (hr : r.Sound) (s : SourceSet) (other : String) : (r.layOut s).entryOf? other = r.entryOf? other := by
  unfold entryOf? find? unitOf?
  show Option.map _ (Option.bind (r.registered.lookup other) fun u => (r.units ++ [s])[u]?) = _
  cases hu : r.registered.lookup other with
  | none => rfl
  | some u =>
    obtain ⟨t, ht, -⟩ := hr.placed other u (mem_of_lookup hu)
    show Option.map _ ((r.units ++ [s])[u]?) = Option.map _ r.units[u]?
    rw [List.getElem?_append_left (List.getElem?_eq_some_iff.mp ht).1]

theorem entryOf?_register {u : UnitId} {s : SourceSet} (hnew : name ∉ r.names) (hu : r.units[u]? = some s) (other : String) :
    (r.register name u).entryOf? other = if other = name then some (.sourceSet s) else r.entryOf? other := by
  unfold entryOf? find? unitOf?
  show Option.map _ (Option.bind ((r.registered ++ [(name, u)]).lookup other) fun u => r.units[u]?) = _
  rw [List.lookup_append]
  by_cases ho : other = name
  · subst ho
    rw [if_pos rfl, lookup_eq_none hnew, Option.none_or, List.lookup_cons_self]
    show Option.map _ r.units[u]? = _
    rw [hu]
    rfl
  · have hother : List.lookup other [(name, u)] = none := by
      rw [List.lookup_cons, show (other == name) = false by simpa using ho]
      rfl
    rw [if_neg ho, hother, Option.or_none]

theorem entryOf?_update {f : SourceSet → SourceSet} (hr : r.Sound) (h : r.update name f = .ok r') (other : String) :
    r'.entryOf? other = if other = name then (r.entryOf? other).map (.onSourceSet f) else r.entryOf? other := by
  obtain ⟨u, hu, rfl⟩ := update_eq_ok h
  unfold entryOf? find? unitOf?
  show Option.map _ (Option.bind (r.registered.lookup other) fun v => (r.units.modify u f)[v]?) = _
  cases hv : r.registered.lookup other with
  | none =>
    split
    · rfl
    · rfl
  | some v =>
    show Option.map _ ((r.units.modify u f)[v]?) = _
    by_cases ho : other = name
    · subst ho
      cases hu.symm.trans hv
      rw [if_pos rfl, List.getElem?_modify_eq]
      show _ = Option.map _ (Option.map _ r.units[u]?)
      cases r.units[u]? <;> rfl
    · -- what was laid out for one name was not laid out for another
      have hne : u ≠ v := by
        rintro rfl
        obtain ⟨s, hs, hname⟩ := hr.placed other u (mem_of_lookup hv)
        obtain ⟨t, ht, hname'⟩ := hr.placed name u (mem_of_lookup hu)
        cases hs.symm.trans ht
        exact ho (hname.symm.trans hname')
      rw [if_neg ho, List.getElem?_modify]
      simp [hne]

end SourceSets

/-! ## Parts -/

namespace Outline

/-- What is under a name in one of the parts, and nothing else, is under that name in the whole. No two parts have a
    name in common. -/
structure Consists (whole : Outline) (parts : List Outline) : Prop where
  whole : ∀ k e, whole k = some e ↔ ∃ o ∈ parts, o k = some e
  apart : parts.Pairwise fun o o' => ∀ k, o k = none ∨ o' k = none

namespace Consists

variable {w w' o : Outline} {parts rest : List Outline} {k : Key} {e : Entry} {f : Entry → Entry}

theorem nil : Consists blank [] := ⟨by simp [Outline.blank], .nil⟩

/-- A part with nothing in it may always be told apart. -/
theorem cons_blank (h : Consists w parts) : Consists w (blank :: parts) := by
  refine ⟨fun k e => ?_, List.pairwise_cons.mpr ⟨fun _ _ _ => .inl rfl, h.apart⟩⟩
  rw [h.whole]
  simp [blank]

theorem perm (h : Consists w parts) {others : List Outline} (hp : parts.Perm others) : Consists w others := by
  refine ⟨fun k e => ?_, (hp.pairwise_iff fun hab k => (hab k).symm).mp h.apart⟩
  rw [h.whole]
  exact ⟨fun ⟨o, ho, he⟩ => ⟨o, hp.subset ho, he⟩, fun ⟨o, ho, he⟩ => ⟨o, hp.symm.subset ho, he⟩⟩

/-- The parts make out the whole. -/
theorem unique (h : Consists w parts) (h' : Consists w' parts) : w = w' := by
  funext k
  refine Option.ext fun e => ?_
  rw [h.whole, h'.whole]

theorem lookup (h : Consists w (o :: rest)) (ho : o k = some e) : w k = some e :=
  (h.whole k e).mpr ⟨o, List.mem_cons_self .., ho⟩

theorem has (h : Consists w (o :: rest)) (ho : o.Has k) : w.Has k := by
  obtain ⟨e, he⟩ := has_iff.mp ho
  exact has_iff.mpr ⟨e, h.lookup he⟩

/-- What is put under a name of the first part, or under a name not yet given, belongs to the first part. -/
theorem set (h : Consists w (o :: rest)) (hk : w k = none ∨ o.Has k) (e : Entry) :
    Consists (w.set k e) (o.set k e :: rest) := by
  obtain ⟨hfirst, hrest⟩ := List.pairwise_cons.mp h.apart
  have hnone : ∀ o' ∈ rest, o' k = none := by
    intro o' ho'
    rcases hk with hk | hk
    · refine Option.eq_none_iff_forall_ne_some.mpr fun e' he' => ?_
      rw [(h.whole k e').mpr ⟨o', List.mem_cons_of_mem _ ho', he'⟩] at hk
      cases hk
    · refine (hfirst o' ho' k).resolve_left fun hn => ?_
      rw [Has, hn] at hk
      cases hk
  refine ⟨fun k' e' => ?_, List.pairwise_cons.mpr ⟨fun o' ho' k' => ?_, hrest⟩⟩
  · by_cases hk' : k' = k
    · subst hk'
      simp only [List.mem_cons, exists_eq_or_imp, set_self]
      refine ⟨.inl, fun h => h.resolve_right ?_⟩
      rintro ⟨o', ho', he'⟩
      rw [hnone o' ho'] at he'
      cases he'
    · rw [set_of_ne hk', h.whole]
      simp only [List.mem_cons, exists_eq_or_imp, set_of_ne hk']
  · by_cases hk' : k' = k
    · exact .inr (hk' ▸ hnone o' ho')
    · rw [set_of_ne hk']
      exact hfirst o' ho' k'

theorem change (h : Consists w (o :: rest)) (hk : o.Has k) (f : Entry → Entry) :
    Consists (w.change k f) (o.change k f :: rest) := by
  obtain ⟨e, he⟩ := has_iff.mp hk
  rw [change_eq_set (h.lookup he), change_eq_set he]
  exact h.set (.inr hk) _

end Consists

end Outline

/-! ## The same but for the order of creation -/

/-- The same source sets, configurations and tasks, perhaps in another order. -/
structure Project.Alike (p q : Project) : Prop where
  sourceSetNames : p.sourceSets.names.Perm q.sourceSets.names
  /-- With equal sources, output and classpaths. -/
  sourceSet : ∀ name, p.sourceSets.get name = q.sourceSets.get name
  configurationNames : p.configurations.names.Perm q.configurations.names
  /-- With equal descriptions, roles, attributes and dependencies. -/
  configuration : ∀ name, p.configurations.get name = q.configurations.get name
  extendsOf : ∀ name, p.configurations.extendsOf name = q.configurations.extendsOf name
  taskNames : p.tasks.names.Perm q.tasks.names
  taskKind : ∀ name, (p.tasks.get name).map (·.body.kind) = (q.tasks.get name).map (·.body.kind)
  dependenciesOf : ∀ name, p.tasks.dependenciesOf name = q.tasks.dependenciesOf name

namespace SourceSets

variable {r s : SourceSets} {name : String}

theorem mem_names_iff (hr : r.Sound) : name ∈ r.names ↔ (r.entryOf? name).isSome := by
  rw [← hr.exists_find?_iff, entryOf?, Option.isSome_map, Option.isSome_iff_exists]

theorem get_of_entryOf? (h : r.entryOf? name = s.entryOf? name) : r.get name = s.get name := by
  unfold entryOf? at h
  unfold get
  cases hr : r.find? name <;> cases hs : s.find? name <;> simp_all

end SourceSets

namespace Configurations

variable {r s : Configurations} {name : String}

theorem mem_names_iff : name ∈ r.names ↔ (r.entryOf? name).isSome := by
  rw [← exists_find?_iff, entryOf?, Option.isSome_map, Option.isSome_iff_exists]

theorem get_of_entryOf? (h : r.entryOf? name = s.entryOf? name) : r.get name = s.get name := by
  unfold entryOf? at h
  unfold get
  cases hr : r.find? name <;> cases hs : s.find? name <;> simp_all

theorem extendsOf_of_entryOf? (h : r.entryOf? name = s.entryOf? name) : r.extendsOf name = s.extendsOf name := by
  have hmem : name ∈ r.names ↔ name ∈ s.names := by rw [mem_names_iff, mem_names_iff, h]
  unfold extendsOf
  by_cases hr : name ∈ r.names
  · obtain ⟨c, hc⟩ := exists_find?_iff.mpr hr
    obtain ⟨d, hd⟩ := exists_find?_iff.mpr (hmem.mp hr)
    have hparents : r.graph.successors name = s.graph.successors name := by
      simp only [entryOf?, hc, hd, Option.map_some, Option.some.injEq, Entry.configuration.injEq] at h
      exact h.2
    rw [if_pos (contains_iff.mpr hr), if_pos (contains_iff.mpr (hmem.mp hr)), hparents]
  · rw [if_neg (fun h => hr (contains_iff.mp h)), if_neg (fun h => hr (hmem.mpr (contains_iff.mp h)))]

end Configurations

namespace Tasks

variable {r s : Tasks} {name : String}

theorem mem_names_iff : name ∈ r.names ↔ (r.entryOf? name).isSome := by
  rw [← exists_find?_iff, entryOf?, Option.isSome_map, Option.isSome_iff_exists]

theorem kind_of_entryOf? (h : r.entryOf? name = s.entryOf? name) :
    (r.get name).map (·.body.kind) = (s.get name).map (·.body.kind) := by
  unfold entryOf? at h
  unfold get
  cases hr : r.find? name <;> cases hs : s.find? name <;> simp_all [Except.map]

theorem dependenciesOf_of_entryOf? (h : r.entryOf? name = s.entryOf? name) :
    r.dependenciesOf name = s.dependenciesOf name := by
  unfold entryOf? at h
  unfold dependenciesOf get
  cases hr : r.find? name <;> cases hs : s.find? name <;> simp_all [Except.map]

end Tasks

namespace Project

/-- The outline tells all but the order of creation. -/
theorem alike_of_outline_eq {p q : Project} (hp : p.Sound) (hq : q.Sound) (h : p.outline = q.outline) : p.Alike q where
  sourceSetNames := by
    refine (List.perm_ext_iff_of_nodup hp.sourceSets.nodup hq.sourceSets.nodup).mpr fun name => ?_
    rw [SourceSets.mem_names_iff hp.sourceSets, SourceSets.mem_names_iff hq.sourceSets]
    exact (congrArg (fun o => (o (.sourceSet name)).isSome = true) h).to_iff
  sourceSet name := SourceSets.get_of_entryOf? (congrFun h (.sourceSet name))
  configurationNames := by
    refine (List.perm_ext_iff_of_nodup hp.configurations.sound.nodup hq.configurations.sound.nodup).mpr fun name => ?_
    rw [Configurations.mem_names_iff, Configurations.mem_names_iff]
    exact (congrArg (fun o => (o (.configuration name)).isSome = true) h).to_iff
  configuration name := Configurations.get_of_entryOf? (congrFun h (.configuration name))
  extendsOf name := Configurations.extendsOf_of_entryOf? (congrFun h (.configuration name))
  taskNames := by
    refine (List.perm_ext_iff_of_nodup hp.tasks.nodup hq.tasks.nodup).mpr fun name => ?_
    rw [Tasks.mem_names_iff, Tasks.mem_names_iff]
    exact (congrArg (fun o => (o (.task name)).isSome = true) h).to_iff
  taskKind name := Tasks.kind_of_entryOf? (congrFun h (.task name))
  dependenciesOf name := Tasks.dependenciesOf_of_entryOf? (congrFun h (.task name))

end Project

end BuildGraph

/-
  BuildGraph.Proofs.Project.Values: what the lazy values of a project come to.

  In a project as it stands, a lazy value that is kept comes to what is kept, and any other to what its thunk gives
  when whatever it asks for comes to what it comes to in that same project: no value is kept on the way and no task
  realized. `Project.valueIn` computes this from ever smaller parts of the way, and more of the way changes nothing
  once there is a value (`valueIn_mono`); so a lazy value comes to one value at most.

  - `Project.HasValue` / `Project.HasBody`: what lazy values and tasks come to.
  - `HasValue.unique`, `HasBody.fold_cons`, `hasValue_iff_gives`: they are what their parts make of them.
-/

import BuildGraph.Proofs.Task.Realization

namespace BuildGraph

/-- The body after a configurator, if lazy values come to what `value` says. -/
def Configurator.effectWith (p : Project) (value : ProviderId → Option String) (body : TaskBody) :
    Configurator → Option TaskBody
  | .logFrom type (.provider id) =>
    match body with
    | .custom other t =>
      if type = other then (value id).map fun text => .custom other { t with log := t.log ++ [text] } else some body
    | _ => some body
  | c => some (c.effect p body)

/-- The body a task has once it is realized, if lazy values come to what `value` says. -/
def Project.bodyWith (p : Project) (value : ProviderId → Option String) (name : String) : Option TaskBody :=
  (p.tasks.find? name).bind fun t =>
    if t.realized then some t.body else t.pending.foldlM (Configurator.effectWith p value) t.body

/-- What a thunk that was never run gives, if lazy values come to what `value` says. -/
def Thunk.result (p : Project) (value : ProviderId → Option String) : Thunk → Option String
  | .compute f => some (f 1)
  | .property id => some (p.property id)
  | .group => some p.group
  | .location l => some (p.layout.resolve l).text
  | .map source f => (value source).map f
  | .fromTask task read => (p.bodyWith value task).bind fun body =>
    match read body with
    | .text v => some v
    | .provider id => value id

/-- What a lazy value comes to, found at most `depth` values deep. -/
def Project.valueIn (p : Project) : Nat → ProviderId → Option String
  | 0, _ => none
  | depth + 1, id => p.providers[id]?.bind fun cell =>
    match cell.value with
    | some v => some v
    | none => cell.thunk.result p (p.valueIn depth)

/-- The value that is kept under a number. -/
def Project.kept? (p : Project) (id : ProviderId) : Option String := p.providers[id]?.bind (·.value)

namespace Project

variable {p : Project} {id : ProviderId} {v w : String} {body body' : TaskBody}

/-- What the lazy value comes to in the project as it stands. -/
def HasValue (p : Project) (id : ProviderId) (v : String) : Prop := ∃ depth, p.valueIn depth id = some v

/-- The body the task comes to in the project as it stands. -/
def HasBody (p : Project) (name : String) (body : TaskBody) : Prop :=
  ∃ depth, p.bodyWith (p.valueIn depth) name = some body

/-- What configurators make of a body in the project as it stands. -/
def Configures (p : Project) (body : TaskBody) (cs : List Configurator) (body' : TaskBody) : Prop :=
  ∃ depth, cs.foldlM (Configurator.effectWith p (p.valueIn depth)) body = some body'

/-- What the thunk gives in the project as it stands. -/
def Gives (p : Project) (thunk : Thunk) (v : String) : Prop := ∃ depth, thunk.result p (p.valueIn depth) = some v

/-! ## A value once found stays the same -/

/-- Whatever has a value has the same in `g`. -/
def Below (f g : ProviderId → Option String) : Prop := ∀ id v, f id = some v → g id = some v

section

variable {f g : ProviderId → Option String}

theorem effectWith_mono (h : Below f g) {c : Configurator} (hc : c.effectWith p f body = some body') :
    c.effectWith p g body = some body' := by
  cases c with
  | logFrom type source =>
    cases source with
    | property id => exact hc
    | provider id =>
      cases body with
      | custom other t =>
        by_cases ht : type = other
        · simp only [Configurator.effectWith, if_pos ht, Option.map_eq_some_iff] at hc ⊢
          obtain ⟨text, htext, rfl⟩ := hc
          exact ⟨text, h id text htext, rfl⟩
        · simp only [Configurator.effectWith, if_neg ht] at hc ⊢
          exact hc
      | _ => exact hc
  | _ => exact hc

theorem foldlM_effectWith_mono (h : Below f g) {cs : List Configurator}
    (hcs : cs.foldlM (Configurator.effectWith p f) body = some body') :
    cs.foldlM (Configurator.effectWith p g) body = some body' := by
  induction cs generalizing body with
  | nil => exact hcs
  | cons c cs ih =>
    rw [List.foldlM_cons] at hcs ⊢
    obtain ⟨b, hb, hrest⟩ := Option.bind_eq_some_iff.mp hcs
    exact Option.bind_eq_some_iff.mpr ⟨b, effectWith_mono h hb, ih hrest⟩

theorem bodyWith_mono (h : Below f g) {name : String} (hb : p.bodyWith f name = some body) :
    p.bodyWith g name = some body := by
  obtain ⟨t, ht, hb⟩ := Option.bind_eq_some_iff.mp hb
  refine Option.bind_eq_some_iff.mpr ⟨t, ht, ?_⟩
  split
  · rename_i hr
    rwa [if_pos hr] at hb
  · rename_i hr
    rw [if_neg hr] at hb
    exact foldlM_effectWith_mono h hb

theorem result_mono (h : Below f g) {thunk : Thunk} (hv : thunk.result p f = some v) : thunk.result p g = some v := by
  cases thunk with
  | map source m =>
    obtain ⟨u, hu, rfl⟩ := Option.map_eq_some_iff.mp hv
    exact Option.map_eq_some_iff.mpr ⟨u, h source u hu, rfl⟩
  | fromTask task read =>
    obtain ⟨b, hb, hv⟩ := Option.bind_eq_some_iff.mp hv
    refine Option.bind_eq_some_iff.mpr ⟨b, bodyWith_mono h hb, ?_⟩
    cases hread : read b with
    | text text => rwa [hread] at hv
    | provider id =>
      rw [hread] at hv
      exact h id v hv
  | _ => exact hv

end

theorem valueIn_succ (p : Project) (depth : Nat) : Below (p.valueIn depth) (p.valueIn (depth + 1)) := by
  induction depth with
  | zero =>
    intro id v hv
    cases hv
  | succ depth ih =>
    intro id v hv
    obtain ⟨cell, hcell, hv⟩ := Option.bind_eq_some_iff.mp hv
    refine Option.bind_eq_some_iff.mpr ⟨cell, hcell, ?_⟩
    cases hkept : cell.value with
    | some w => rwa [hkept] at hv
    | none =>
      rw [hkept] at hv
      exact result_mono ih hv

/-- More of the way changes nothing once there is a value. -/
theorem valueIn_mono (p : Project) {m n : Nat} (h : m ≤ n) : Below (p.valueIn m) (p.valueIn n) := by
  induction h with
  | refl => exact fun _ _ hv => hv
  | step _ ih => exact fun id v hv => p.valueIn_succ _ id v (ih id v hv)

theorem HasValue.unique (h : p.HasValue id v) (h' : p.HasValue id w) : v = w := by
  obtain ⟨m, hm⟩ := h
  obtain ⟨n, hn⟩ := h'
  have hv := valueIn_mono p (Nat.le_max_left m n) id v hm
  have hw := valueIn_mono p (Nat.le_max_right m n) id w hn
  exact Option.some.inj (hv.symm.trans hw)

/-! ## What the parts come to -/

theorem HasValue.of_kept (h : p.kept? id = some v) : p.HasValue id v := by
  obtain ⟨cell, hcell, hv⟩ := Option.bind_eq_some_iff.mp h
  refine ⟨1, Option.bind_eq_some_iff.mpr ⟨cell, hcell, ?_⟩⟩
  rw [hv]

/-- A value that is not kept is what its thunk gives. -/
theorem hasValue_iff_gives {cell : Provider} (hcell : p.providers[id]? = some cell) (hnone : cell.value = none) :
    p.HasValue id v ↔ p.Gives cell.thunk v := by
  have hsucc : ∀ depth, p.valueIn (depth + 1) id = cell.thunk.result p (p.valueIn depth) := fun depth => by
    rw [valueIn, hcell, Option.bind_some, hnone]
  constructor
  · rintro ⟨depth, hv⟩
    cases depth with
    | zero => cases hv
    | succ depth => exact ⟨depth, hsucc depth ▸ hv⟩
  · rintro ⟨depth, hv⟩
    exact ⟨depth + 1, (hsucc depth).trans hv⟩

theorem Gives.map {source : ProviderId} (h : p.HasValue source v) (f : String → String) :
    p.Gives (.map source f) (f v) := by
  obtain ⟨depth, hv⟩ := h
  exact ⟨depth, congrArg (Option.map f) hv⟩

theorem Gives.fromTask_text {task : String} {read : TaskBody → Reading} (h : p.HasBody task body)
    (hread : read body = .text v) : p.Gives (.fromTask task read) v := by
  obtain ⟨depth, hb⟩ := h
  refine ⟨depth, Option.bind_eq_some_iff.mpr ⟨body, hb, ?_⟩⟩
  rw [hread]

theorem Gives.fromTask_provider {task : String} {read : TaskBody → Reading} (h : p.HasBody task body)
    (hread : read body = .provider id) (hv : p.HasValue id v) : p.Gives (.fromTask task read) v := by
  obtain ⟨m, hb⟩ := h
  obtain ⟨n, hv⟩ := hv
  have hb' := bodyWith_mono (p.valueIn_mono (Nat.le_max_left m n)) hb
  refine ⟨max m n, Option.bind_eq_some_iff.mpr ⟨body, hb', ?_⟩⟩
  rw [hread]
  exact p.valueIn_mono (Nat.le_max_right m n) id v hv

theorem HasBody.of_realized {name : String} {t : Task} (ht : p.tasks.find? name = some t) (hr : t.realized = true) :
    p.HasBody name t.body := by
  refine ⟨0, ?_⟩
  rw [bodyWith, ht, Option.bind_some, if_pos hr]

theorem HasBody.of_configures {name : String} {t : Task} (ht : p.tasks.find? name = some t) (hr : t.realized = false)
    (h : p.Configures t.body t.pending body) : p.HasBody name body := by
  obtain ⟨depth, hb⟩ := h
  refine ⟨depth, ?_⟩
  rw [bodyWith, ht, Option.bind_some, hr, if_neg Bool.false_ne_true]
  exact hb

theorem Configures.nil (p : Project) (body : TaskBody) : p.Configures body [] body := ⟨0, rfl⟩

theorem Configures.cons {c : Configurator} {cs : List Configurator} {b : TaskBody} (h : p.Configures body [c] b)
    (hrest : p.Configures b cs body') : p.Configures body (c :: cs) body' := by
  obtain ⟨m, hb⟩ := h
  obtain ⟨n, hrest⟩ := hrest
  have hb' := foldlM_effectWith_mono (p.valueIn_mono (Nat.le_max_left m n)) hb
  have hrest' := foldlM_effectWith_mono (p.valueIn_mono (Nat.le_max_right m n)) hrest
  refine ⟨max m n, ?_⟩
  rw [← List.singleton_append, List.foldlM_append]
  exact Option.bind_eq_some_iff.mpr ⟨b, hb', hrest'⟩

theorem Configures.of_effectWith {c : Configurator} {depth : Nat}
    (h : c.effectWith p (p.valueIn depth) body = some body') : p.Configures body [c] body' := by
  refine ⟨depth, ?_⟩
  rw [List.foldlM_cons, h]
  rfl

/-- A configurator that computes no lazy value. -/
theorem Configures.of_effect {c : Configurator} (h : c.AsksNothing) (body : TaskBody) :
    p.Configures body [c] (c.effect p body) := by
  have hc : c.effectWith p (p.valueIn 0) body = some (c.effect p body) := by
    cases c with
    | logFrom type source =>
      cases source with
      | property id => rfl
      | provider id => exact h.elim
    | _ => rfl
  exact .of_effectWith hc

/-- A configurator that logs a lazy value. -/
theorem Configures.of_value (h : p.HasValue id v) (type : CustomType) (t : CustomTask) :
    p.Configures (.custom type t) [.logFrom type (.provider id)] (.custom type { t with log := t.log ++ [v] }) := by
  obtain ⟨depth, hv⟩ := h
  refine @Configures.of_effectWith p _ _ _ depth ?_
  simp only [Configurator.effectWith, if_true, hv, Option.map_some]

end Project

end BuildGraph

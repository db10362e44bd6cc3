/-
  BuildGraph.Proofs.Project.Memoization: lazy values are computed once and kept.

  While lazy values are computed from a project `p`, values are kept and tasks realized, so what is asked for late
  finds another project than what is asked for first. `Resolves p busy q` says that `q` is `p` with nothing but that
  done to it: every value kept is one it comes to in `p`, and every task realized, those in `busy` apart, has the body
  it comes to in `p`. So it does not matter in which order things are asked for, and all that is computed on the way is
  what it comes to in the project before.

  - `evaluate_computes`: what is computed is what the value comes to, and nothing else is done.
  - `evaluate_returns`: values that do not depend on themselves are computed.
-/

import BuildGraph.Proofs.Project.Basic
import BuildGraph.Proofs.Project.Values
import Mathlib.Data.List.Perm.Subperm

namespace BuildGraph

open Operation

namespace Project

/-- The project with a value kept that was just computed. -/
def keep (p : Project) (id : ProviderId) (v : String) : Project :=
  { p with providers := p.providers.modify id fun c => { c with value := some v, runs := c.runs + 1 } }

theorem resolve_apply (p : Project) (id : ProviderId) (v : String) : ConfigM.resolve id v p = .ok ⟨⟩ (p.keep id v) := rfl

section

variable {p : Project} {id : ProviderId} {cell : Provider} {v u : String}

theorem getElem?_keep (p : Project) (id : ProviderId) (v : String) (other : ProviderId) :
    (p.keep id v).providers[other]? = if id = other then
      p.providers[other]?.map fun c => { c with value := some v, runs := c.runs + 1 } else p.providers[other]? := by
  show (p.providers.modify id _)[other]? = _
  rw [List.getElem?_modify]
  split <;> simp

theorem kept?_keep_self (h : p.providers[id]? = some cell) : (p.keep id v).kept? id = some v := by
  rw [kept?, getElem?_keep, if_pos rfl, h]
  rfl

/-- What is kept stays so when another value is. -/
theorem kept?_keep {other : ProviderId} (hcell : p.providers[id]? = some cell) (hnone : cell.value = none)
    (h : p.kept? other = some u) : (p.keep id v).kept? other = some u := by
  have hne : id ≠ other := by
    rintro rfl
    rw [kept?, hcell, Option.bind_some, hnone] at h
    cases h
  rw [kept?, getElem?_keep, if_neg hne]
  exact h

end

/-- What a value was made from is kept if it is. -/
def Mapped (p : Project) : Prop :=
  ∀ (id : ProviderId) (cell : Provider) (s : ProviderId) (f : String → String) (v : String),
    p.providers[id]? = some cell → cell.thunk = .map s f → cell.value = some v → ∃ u, p.kept? s = some u ∧ v = f u

/-- How often thunks were run, and what is kept of values made from others. -/
structure Memo (p : Project) : Prop where
  fresh : ∀ cell ∈ p.providers, cell.value = none → cell.runs = 0
  once : ∀ cell ∈ p.providers, cell.runs ≤ 1
  mapped : p.Mapped

/-- The project `q` is `p` with values kept and tasks realized that come to the same in `p`; of the tasks in `busy` nothing
    is said. -/
structure Resolves (p : Project) (busy : List Busy) (q : Project) : Prop where
  elsewhere : q = { p with tasks := q.tasks, providers := q.providers }
  length : q.providers.length = p.providers.length
  cell : ∀ {id : ProviderId} {c : Provider}, p.providers[id]? = some c → q.providers[id]? = some c ∨
    c.value = none ∧ ∃ v, q.providers[id]? = some { c with value := some v, runs := c.runs + 1 } ∧ p.HasValue id v
  mapped : q.Mapped
  task : ∀ {name : String}, .task name ∉ busy → q.tasks.find? name = p.tasks.find? name ∨
    ∃ t body, p.tasks.find? name = some t ∧ t.realized = false ∧ p.HasBody name body ∧
      q.tasks.find? name = some { t with realized := true, pending := [], body := body }

/-- What is busy is left as it is. -/
structure Leaves (busy : List Busy) (q r : Project) : Prop where
  sameTask : ∀ {name : String}, .task name ∈ busy → r.tasks.find? name = q.tasks.find? name
  sameCell : ∀ {id : ProviderId}, .provider id ∈ busy → r.providers[id]? = q.providers[id]?

namespace Leaves

variable {busy busy' : List Busy} {q r s : Project}

theorem refl : Leaves busy q q := ⟨fun _ => rfl, fun _ => rfl⟩

theorem trans (h : Leaves busy q r) (h' : Leaves busy r s) : Leaves busy q s :=
  ⟨fun hb => (h'.sameTask hb).trans (h.sameTask hb), fun hb => (h'.sameCell hb).trans (h.sameCell hb)⟩

theorem of_subset (h : Leaves busy q r) (hs : busy' ⊆ busy) : Leaves busy' q r :=
  ⟨fun hb => h.sameTask (hs hb), fun hb => h.sameCell (hs hb)⟩

end Leaves

namespace Resolves

variable {p q r : Project} {busy busy' : List Busy} {id : ProviderId} {c : Provider} {name : String} {t : Task}
  {v : String} {body : TaskBody}

theorem refl (hm : p.Mapped) : Resolves p busy p := ⟨rfl, rfl, fun h => .inl h, hm, fun _ => .inl rfl⟩

theorem of_busy (h : Resolves p busy q) (hb : ∀ name, .task name ∈ busy → .task name ∈ busy') : Resolves p busy' q :=
  ⟨h.elsewhere, h.length, h.cell, h.mapped, fun hn => h.task fun hname => hn (hb _ hname)⟩

/-- Only the tasks in `busy` are told apart. -/
theorem provider_iff : Resolves p (.provider id :: busy) q ↔ Resolves p busy q :=
  ⟨fun h => h.of_busy fun _ hn => by simpa using hn, fun h => h.of_busy fun _ hn => List.mem_cons_of_mem _ hn⟩

theorem effect_eq (h : Resolves p busy q) : Configurator.effect q = Configurator.effect p := by
  rw [h.elsewhere]
  funext body c
  cases c with
  | logFrom type source => cases source <;> rfl
  | _ => rfl

/-- A value that is kept is one the lazy value comes to. -/
theorem hasValue (h : Resolves p busy q) (hkept : q.kept? id = some v) : p.HasValue id v := by
  obtain ⟨c', hc', hv⟩ := Option.bind_eq_some_iff.mp hkept
  have hid : id < p.providers.length := h.length ▸ (List.getElem?_eq_some_iff.mp hc').1
  have hc := List.getElem?_eq_getElem hid
  rcases h.cell hc with hsame | ⟨-, w, hkeep, hw⟩
  · rw [hsame] at hc'
    cases hc'
    exact .of_kept (by rw [kept?, hc]; exact hv)
  · rw [hkeep] at hc'
    cases hc'
    cases hv
    exact hw

/-- A value that is not kept yet is as it was. -/
theorem cell_of_none (h : Resolves p busy q) (hc : q.providers[id]? = some c) (hnone : c.value = none) :
    p.providers[id]? = some c := by
  have hid : id < p.providers.length := h.length ▸ (List.getElem?_eq_some_iff.mp hc).1
  have hp := List.getElem?_eq_getElem hid
  rcases h.cell hp with hsame | ⟨-, w, hkeep, -⟩
  · rw [hp, ← hsame, hc]
  · rw [hkeep] at hc
    cases hc
    cases hnone

/-- A task that is realized has the body it comes to. -/
theorem hasBody (h : Resolves p busy q) (hn : .task name ∉ busy) (ht : q.tasks.find? name = some t)
    (hr : t.realized = true) : p.HasBody name t.body := by
  rcases h.task hn with hsame | ⟨t', body, -, -, hbody, hq⟩
  · exact .of_realized (hsame ▸ ht) hr
  · rw [hq] at ht
    cases ht
    exact hbody

/-- A task that is not realized is as it was. -/
theorem task_of_unrealized (h : Resolves p busy q) (hn : .task name ∉ busy) (ht : q.tasks.find? name = some t)
    (hr : t.realized = false) : p.tasks.find? name = some t := by
  rcases h.task hn with hsame | ⟨t', body, -, -, -, hq⟩
  · exact hsame ▸ ht
  · rw [hq] at ht
    cases ht
    cases hr

/-- A value that was just computed is kept. -/
theorem keep (h : Resolves p busy q) (hc : q.providers[id]? = some c) (hnone : c.value = none) (hv : p.HasValue id v)
    (hmap : ∀ s f, c.thunk = .map s f → ∃ u, q.kept? s = some u ∧ v = f u) : Resolves p busy (q.keep id v) := by
  refine ⟨?_, ?_, ?_, ?_, fun hn => h.task hn⟩
  · exact congrArg (fun r : Project => { r with providers := (q.keep id v).providers }) h.elsewhere
  · show (q.providers.modify id _).length = _
    rw [List.length_modify, h.length]
  · intro other c' hc'
    rw [getElem?_keep]
    split
    · rename_i he
      subst he
      have hsame := h.cell_of_none hc hnone
      rw [hsame] at hc'
      cases hc'
      exact .inr ⟨hnone, v, by rw [hc]; rfl, hv⟩
    · exact h.cell hc'
  · intro other c' s f w hc' hthunk hw
    rw [getElem?_keep] at hc'
    split at hc'
    · rename_i he
      subst he
      rw [hc] at hc'
      cases hc'
      cases hw
      obtain ⟨u, hu, he⟩ := hmap s f hthunk
      exact ⟨u, kept?_keep hc hnone hu, he⟩
    · obtain ⟨u, hu, he⟩ := h.mapped other c' s f w hc' hthunk hw
      exact ⟨u, kept?_keep hc hnone hu, he⟩

/-- What is done to tasks that are busy is not told. -/
theorem update (h : Resolves p busy q) {f : Task → Task} (hf : ∀ t, (f t).name = t.name)
    (hself : .task name ∉ busy' → ∃ t body, p.tasks.find? name = some t ∧ t.realized = false ∧ p.HasBody name body ∧
      (q.tasks.find? name).map f = some { t with realized := true, pending := [], body := body })
    (hb : ∀ other, other ≠ name → .task other ∉ busy' → .task other ∉ busy) :
    Resolves p busy' { q with tasks := q.tasks.update name f } := by
  refine ⟨?_, h.length, h.cell, h.mapped, fun {other} hn => ?_⟩
  · exact congrArg (fun r : Project => { r with tasks := q.tasks.update name f }) h.elsewhere
  · show (q.tasks.update name f).find? other = _ ∨ ∃ _ _, _ ∧ _ ∧ _ ∧ (q.tasks.update name f).find? other = _
    rw [Tasks.find?_update hf]
    by_cases he : other = name
    · subst he
      rw [if_pos rfl]
      exact .inr (hself hn)
    · rw [if_neg he]
      exact h.task (hb other he hn)

/-- While the configurators of a task run, it is busy, so nothing is said of it. -/
theorem mark (h : Resolves p busy q) : Resolves p (.task name :: busy)
    { q with tasks := q.tasks.update name fun t => { t with realized := true, pending := [] } } :=
  h.update (fun _ => rfl) (fun hnot => absurd (List.mem_cons_self ..) hnot)
    fun _ _ hnot hb => hnot (List.mem_cons_of_mem _ hb)

end Resolves

/-! ## What is computed is what the value comes to -/

/-- From `q`, which is `p` with what was asked for before, `r` is reached with `busy` left as it is. -/
structure Advances (p : Project) (busy : List Busy) (q r : Project) : Prop extends Resolves p busy r, Leaves busy q r

/-- What `ask` gives is what lazy values come to in `p`, and is kept. -/
def Computes (p : Project) (busy : List Busy) (ask : ProviderId → ConfigM String) : Prop :=
  ∀ {id : ProviderId} {q r : Project} {v : String}, Resolves p busy q → ask id q = .ok v r →
    p.HasValue id v ∧ Advances p busy q r ∧ r.kept? id = some v

section

variable {p q r : Project} {busy : List Busy} {ask : ProviderId → ConfigM String} {b b' : TaskBody}

theorem Advances.refl (h : Resolves p busy q) : Advances p busy q q := ⟨h, .refl⟩

/-- What is said of all tasks is still said of all if some were left as they were. -/
theorem Advances.settle {busy' : List Busy} (hr : Advances p busy' q r) (h : Resolves p busy q) : Resolves p busy r := by
  refine ⟨hr.elsewhere, hr.length, hr.cell, hr.mapped, fun {name} hn => ?_⟩
  by_cases hb : .task name ∈ busy'
  · rw [hr.sameTask hb]
    exact h.task hn
  · exact hr.task hb

theorem run_computes (hask : Computes p busy ask) (h : Resolves p busy q) {c : Configurator}
    (hr : c.run ask b q = .ok b' r) : p.Configures b [c] b' ∧ Advances p busy q r := by
  have hplain : c.AsksNothing → p.Configures b [c] b' ∧ Advances p busy q r := by
    intro hc
    rw [Configurator.run_of_asksNothing hc, h.effect_eq] at hr
    cases hr
    exact ⟨.of_effect hc b, .refl h⟩
  cases c with
  | logFrom type source =>
    cases source with
    | property id => exact hplain trivial
    | provider id =>
      -- A body the configurator is not for stays as it is, and nothing is asked for.
      cases b with
      | custom other t =>
        by_cases ht : type = other
        · subst ht
          simp only [Configurator.run, Configurator.readText, if_true] at hr
          obtain ⟨v, r', hv, hr⟩ := bind_ok hr
          cases hr
          obtain ⟨hvalue, hadvances, -⟩ := hask h hv
          exact ⟨.of_value hvalue type t, hadvances⟩
        · simp only [Configurator.run, if_neg ht] at hr
          cases hr
          exact ⟨@Configures.of_effectWith p _ _ _ 0 (if_neg ht), .refl h⟩
      | _ =>
        cases hr
        exact ⟨@Configures.of_effectWith p _ _ _ 0 rfl, .refl h⟩
  | _ => exact hplain trivial

theorem foldlM_computes (hask : Computes p busy ask) (h : Resolves p busy q) {cs : List Configurator}
    (hr : cs.foldlM (Configurator.run ask) b q = .ok b' r) : p.Configures b cs b' ∧ Advances p busy q r := by
  induction cs generalizing b q with
  | nil =>
    cases hr
    exact ⟨.nil p _, .refl h⟩
  | cons c cs ih =>
    rw [List.foldlM_cons] at hr
    obtain ⟨b₁, q₁, hc, hrest⟩ := bind_ok hr
    obtain ⟨hfirst, hq₁⟩ := run_computes hask h hc
    obtain ⟨hothers, hq⟩ := ih hq₁.toResolves hrest
    exact ⟨hfirst.cons hothers, hq.toResolves, hq₁.toLeaves.trans hq.toLeaves⟩

theorem realizeWith_computes {name : String} (hask : Computes p (.task name :: busy) ask) (hn : .task name ∉ busy)
    (h : Resolves p busy q) (hok : ConfigM.realizeWith ask name q = .ok b r) :
    p.HasBody name b ∧ Advances p busy q r := by
  cases ht : q.tasks.find? name with
  | none =>
    rw [ConfigM.realizeWith_of_not_mem (Tasks.find?_eq_none_iff.mp ht)] at hok
    cases hok
  | some t =>
    cases hr : t.realized with
    | true =>
      rw [ConfigM.realizeWith_of_realized ht hr] at hok
      cases hok
      exact ⟨h.hasBody hn ht hr, .refl h⟩
    | false =>
      have hp := h.task_of_unrealized hn ht hr
      rw [ConfigM.realizeWith_eq ht hr] at hok
      obtain ⟨b', s, hfold, hok⟩ := bind_ok hok
      cases hok
      have hmark : ∀ t : Task, ({ t with realized := true, pending := [] } : Task).name = t.name := fun _ => rfl
      have hset : ∀ t : Task, ({ t with body := b } : Task).name = t.name := fun _ => rfl
      have hne : ∀ {other}, .task other ∈ busy → other ≠ name := fun hb he => hn (he ▸ hb)
      obtain ⟨hconfigures, hs⟩ := foldlM_computes hask h.mark hfold
      have hbody : p.HasBody name b := .of_configures hp hr hconfigures
      have hself : s.tasks.find? name = some { t with realized := true, pending := [] } := by
        rw [hs.sameTask (List.mem_cons_self ..)]
        show (q.tasks.update name _).find? name = _
        rw [Tasks.find?_update hmark, if_pos rfl, ht]
        rfl
      refine ⟨hbody, ?_, ?_, fun hb => hs.sameCell (List.mem_cons_of_mem _ hb)⟩
      · refine hs.toResolves.update hset (fun _ => ⟨t, b, hp, hr, hbody, by rw [hself]; rfl⟩) ?_
        intro other he hnot hb
        rcases List.mem_cons.mp hb with hb | hb
        · cases hb
          exact he rfl
        · exact hnot hb
      · intro other hb
        have hq := hs.sameTask (List.mem_cons_of_mem _ hb)
        show (s.tasks.update name _).find? other = _
        rw [Tasks.find?_update hset, if_neg (hne hb), hq]
        show (q.tasks.update name _).find? other = _
        rw [Tasks.find?_update hmark, if_neg (hne hb)]

theorem runThunk_computes {ask : List Busy → ProviderId → ConfigM String} (hask : ∀ busy, Computes p busy (ask busy))
    (h : Resolves p busy q) {thunk : Thunk} {v : String} (hok : ConfigM.runThunk ask busy 0 thunk q = .ok v r) :
    p.Gives thunk v ∧ Advances p busy q r ∧ ∀ s f, thunk = .map s f → ∃ u, r.kept? s = some u ∧ v = f u := by
  cases thunk with
  | compute f =>
    cases hok
    exact ⟨⟨0, rfl⟩, .refl h, by simp⟩
  | property id =>
    cases hok
    refine ⟨⟨0, ?_⟩, .refl h, by simp⟩
    rw [h.elsewhere]
    rfl
  | group =>
    cases hok
    refine ⟨⟨0, ?_⟩, .refl h, by simp⟩
    rw [h.elsewhere]
    rfl
  | location l =>
    cases hok
    refine ⟨⟨0, ?_⟩, .refl h, by simp⟩
    rw [h.elsewhere]
    rfl
  | map source f =>
    obtain ⟨u, r', hu, hok⟩ := bind_ok hok
    cases hok
    obtain ⟨hvalue, hadvances, hkept⟩ := hask busy h hu
    refine ⟨.map hvalue f, hadvances, ?_⟩
    intro s g he
    cases he
    exact ⟨u, hkept, rfl⟩
  | fromTask task read =>
    change (if Busy.task task ∈ busy then _ else _ : ConfigM String) q = _ at hok
    split at hok
    · cases hok
    · rename_i hn
      obtain ⟨b, q', hb, hok⟩ := bind_ok hok
      obtain ⟨hbody, hq'⟩ := realizeWith_computes (hask _) hn h hb
      cases hread : read b with
      | text text =>
        rw [hread] at hok
        cases hok
        exact ⟨.fromTask_text hbody hread, hq', by simp⟩
      | provider id =>
        rw [hread] at hok
        have hbusy : Resolves p (.task task :: busy) q' := hq'.toResolves.of_busy fun _ hb => List.mem_cons_of_mem _ hb
        obtain ⟨hvalue, hr, -⟩ := hask _ hbusy hok
        exact ⟨.fromTask_provider hbody hread hvalue, ⟨hr.settle hq'.toResolves,
          hq'.toLeaves.trans (hr.toLeaves.of_subset (List.subset_cons_self ..))⟩, by simp⟩

/-- What is computed at any depth is what the value comes to, and is kept. -/
theorem evaluateWith_computes (hm : p.Memo) (depth : Nat) (busy : List Busy) :
    Computes p busy (ConfigM.evaluateWith depth busy) := by
  induction depth generalizing busy with
  | zero =>
    intro id q r v _ hok
    cases hok
  | succ depth ih =>
    intro id q r v h hok
    unfold ConfigM.evaluateWith at hok
    rw [bind_of_ok (get_apply q)] at hok
    cases hcell : q.providers[id]? with
    | none =>
      rw [hcell] at hok
      cases hok
    | some cell =>
      rw [hcell] at hok
      cases hvalue : cell.value with
      | some w =>
        simp only [hvalue] at hok
        cases hok
        have hkept : q.kept? id = some v := by rw [kept?, hcell, Option.bind_some, hvalue]
        exact ⟨h.hasValue hkept, .refl h, hkept⟩
      | none =>
        simp only [hvalue] at hok
        change (if Busy.provider id ∈ busy then _ else _ : ConfigM String) q = _ at hok
        split at hok
        · cases hok
        · rename_i hn
          obtain ⟨w, q', hrun, hok⟩ := bind_ok hok
          rw [bind_of_ok (resolve_apply q' id w)] at hok
          cases hok
          have hp := h.cell_of_none hcell hvalue
          rw [hm.fresh cell (List.mem_of_getElem? hp) hvalue] at hrun
          obtain ⟨hgives, hq', hmap⟩ := runThunk_computes ih (Resolves.provider_iff.mpr h) hrun
          have hcell' : q'.providers[id]? = some cell := (hq'.sameCell (List.mem_cons_self ..)).trans hcell
          have hv : p.HasValue id v := (hasValue_iff_gives hp hvalue).mpr hgives
          refine ⟨hv, ⟨(Resolves.provider_iff.mp hq'.toResolves).keep hcell' hvalue hv hmap, ?_, ?_⟩, kept?_keep_self hcell'⟩
          · exact fun hb => hq'.sameTask (List.mem_cons_of_mem _ hb)
          · intro other hb
            have hne : id ≠ other := fun he => hn (he ▸ hb)
            rw [getElem?_keep, if_neg hne]
            exact hq'.sameCell (List.mem_cons_of_mem _ hb)

theorem evaluateBusy_computes (hm : p.Memo) (busy : List Busy) : Computes p busy (ConfigM.evaluateBusy busy) :=
  fun h hok => evaluateWith_computes hm _ busy h hok

end

/-! ## Values that do not depend on themselves -/

/-- The lazy values of `p` and what they ask for are there, and each asks for what has a lower rank. A value read from a
    task has a lower rank than the task, which is busy while it is computed. -/
structure Ranked (p : Project) (rank : Busy → Nat) : Prop where
  map : ∀ {id : ProviderId} {cell : Provider} {s : ProviderId} {f : String → String}, p.providers[id]? = some cell →
    cell.value = none → cell.thunk = .map s f → s < p.providers.length ∧ rank (.provider s) < rank (.provider id)
  fromTask : ∀ {id : ProviderId} {cell : Provider} {name : String} {read : TaskBody → Reading},
    p.providers[id]? = some cell → cell.value = none → cell.thunk = .fromTask name read →
      (∃ t, p.tasks.find? name = some t) ∧ rank (.task name) < rank (.provider id) ∧
        ∀ body other, p.HasBody name body → read body = .provider other →
          other < p.providers.length ∧ rank (.provider other) < rank (.task name)
  asks : ∀ {name : String} {t : Task} {type : CustomType} {id : ProviderId}, p.tasks.find? name = some t →
    t.realized = false → .logFrom type (.provider id) ∈ t.pending →
      id < p.providers.length ∧ rank (.provider id) < rank (.task name)

/-- The lazy values that are busy. -/
def busyProviders (busy : List Busy) : List ProviderId :=
  busy.filterMap fun
    | .provider id => some id
    | .task _ => none

/-- There is as much depth left as there may be lazy values to compute. -/
structure Room (p : Project) (depth : Nat) (busy : List Busy) : Prop where
  nodup : (busyProviders busy).Nodup
  lt : ∀ id ∈ busyProviders busy, id < p.providers.length
  depth : p.providers.length + 1 ≤ depth + (busyProviders busy).length

theorem mem_busyProviders {busy : List Busy} {id : ProviderId} : id ∈ busyProviders busy ↔ .provider id ∈ busy := by
  rw [busyProviders, List.mem_filterMap]
  constructor
  · rintro ⟨b, hb, he⟩
    cases b with
    | provider other =>
      cases he
      exact hb
    | task name => cases he
  · exact fun h => ⟨_, h, rfl⟩

namespace Room

variable {p : Project} {depth : Nat} {busy : List Busy}

theorem pos (h : Room p depth busy) : 0 < depth := by
  have hsubset : busyProviders busy ⊆ List.range p.providers.length := fun id hid => List.mem_range.mpr (h.lt id hid)
  have hle := (List.subperm_of_subset h.nodup hsubset).length_le
  have hdepth := h.depth
  rw [List.length_range] at hle
  omega

theorem provider {id : ProviderId} (h : Room p (depth + 1) busy) (hid : id < p.providers.length)
    (hn : .provider id ∉ busy) : Room p depth (.provider id :: busy) := by
  have hnew : id ∉ busyProviders busy := fun hm => hn (mem_busyProviders.mp hm)
  refine ⟨List.nodup_cons.mpr ⟨hnew, h.nodup⟩, ?_, ?_⟩
  · intro other hother
    rcases List.mem_cons.mp hother with rfl | hother
    · exact hid
    · exact h.lt other hother
  · have hdepth := h.depth
    show _ ≤ depth + (id :: busyProviders busy).length
    rw [List.length_cons]
    omega

theorem task (h : Room p depth busy) (name : String) : Room p depth (.task name :: busy) := ⟨h.nodup, h.lt, h.depth⟩

end Room

/-- The lazy value is computed by `ask`, whatever was asked for before. -/
def Returns (p : Project) (busy : List Busy) (ask : ProviderId → ConfigM String) (id : ProviderId) : Prop :=
  ∀ {q : Project}, Resolves p busy q → ∃ v r, ask id q = .ok v r

section

variable {p q : Project} {busy : List Busy} {ask : ProviderId → ConfigM String} {b : TaskBody} {rank : Busy → Nat}

theorem run_returns (h : Resolves p busy q) {c : Configurator}
    (hret : ∀ type id, c = .logFrom type (.provider id) → Returns p busy ask id) : ∃ b' r, c.run ask b q = .ok b' r := by
  have hplain : c.AsksNothing → ∃ b' r, c.run ask b q = .ok b' r :=
    fun hc => ⟨_, _, Configurator.run_of_asksNothing hc ask b⟩
  cases c with
  | logFrom type source =>
    cases source with
    | property id => exact hplain trivial
    | provider id =>
      cases b with
      | custom other t =>
        by_cases ht : type = other
        · obtain ⟨v, r, hv⟩ := hret type id rfl h
          have hlog : (do return .custom other { t with log := t.log ++ [← ask id] } : ConfigM TaskBody) q =
              .ok (.custom other { t with log := t.log ++ [v] }) r := bind_of_ok hv
          refine ⟨.custom other { t with log := t.log ++ [v] }, r, ?_⟩
          simp only [Configurator.run, Configurator.readText, if_pos ht]
          exact hlog
        · refine ⟨.custom other t, q, ?_⟩
          simp only [Configurator.run, if_neg ht]
          rfl
      | _ => exact ⟨_, q, rfl⟩
  | _ => exact hplain trivial

theorem foldlM_returns (hask : Computes p busy ask) (h : Resolves p busy q) {cs : List Configurator}
    (hret : ∀ type id, .logFrom type (.provider id) ∈ cs → Returns p busy ask id) :
    ∃ b' r, cs.foldlM (Configurator.run ask) b q = .ok b' r := by
  induction cs generalizing b q with
  | nil => exact ⟨b, q, rfl⟩
  | cons c cs ih =>
    obtain ⟨b₁, q₁, hc⟩ := run_returns h fun type id he => hret type id (he ▸ List.mem_cons_self ..)
    have hq₁ := (run_computes hask h hc).2
    rw [List.foldlM_cons, bind_of_ok hc]
    exact ih hq₁.toResolves fun type id hm => hret type id (List.mem_cons_of_mem _ hm)

theorem realizeWith_returns {name : String} {t : Task} (hask : Computes p (.task name :: busy) ask)
    (hn : .task name ∉ busy) (h : Resolves p busy q) (ht : p.tasks.find? name = some t)
    (hret : t.realized = false → ∀ type id, .logFrom type (.provider id) ∈ t.pending →
      Returns p (.task name :: busy) ask id) : ∃ b r, ConfigM.realizeWith ask name q = .ok b r := by
  obtain ⟨t', ht'⟩ : ∃ t', q.tasks.find? name = some t' := by
    rcases h.task hn with hsame | ⟨_, _, -, -, -, hq⟩
    · exact ⟨t, hsame.trans ht⟩
    · exact ⟨_, hq⟩
  cases hr : t'.realized with
  | true => exact ⟨_, _, ConfigM.realizeWith_of_realized ht' hr⟩
  | false =>
    have hp := h.task_of_unrealized hn ht' hr
    rw [ht] at hp
    cases hp
    obtain ⟨b, r, hfold⟩ := @foldlM_returns p _ _ ask t.body hask h.mark _ (hret hr)
    rw [ConfigM.realizeWith_eq ht' hr, bind_of_ok hfold]
    exact ⟨b, _, rfl⟩

theorem runThunk_returns {ask : List Busy → ProviderId → ConfigM String} {id : ProviderId} {cell : Provider}
    (hrank : p.Ranked rank) (hask : ∀ busy, Computes p busy (ask busy)) (h : Resolves p busy q)
    (hcell : p.providers[id]? = some cell) (hnone : cell.value = none) (hbusy : ∀ b ∈ busy, rank (.provider id) ≤ rank b)
    (hret : ∀ (tasks : List String) (other : ProviderId), other < p.providers.length →
      rank (.provider other) < rank (.provider id) → (∀ name ∈ tasks, rank (.provider other) < rank (.task name)) →
        Returns p (tasks.map .task ++ busy) (ask (tasks.map .task ++ busy)) other) :
    ∃ v r, ConfigM.runThunk ask busy 0 cell.thunk q = .ok v r := by
  cases hthunk : cell.thunk with
  | map source f =>
    obtain ⟨hlt, hrank⟩ := hrank.map hcell hnone hthunk
    obtain ⟨v, r, hv⟩ := hret [] source hlt hrank (by simp) h
    exact ⟨f v, r, bind_of_ok hv⟩
  | fromTask name read =>
    obtain ⟨⟨t, ht⟩, htask, hread⟩ := hrank.fromTask hcell hnone hthunk
    have hn : .task name ∉ busy := fun hb => absurd (hbusy _ hb) (by omega)
    have hret' : ∀ other, other < p.providers.length → rank (.provider other) < rank (.task name) →
        Returns p (.task name :: busy) (ask (.task name :: busy)) other := fun other hlt hless =>
      hret [name] other hlt (by omega) (by simpa using hless)
    obtain ⟨b, q', hb⟩ := realizeWith_returns (hask _) hn h ht fun hr type other hm =>
      hret' other (hrank.asks ht hr hm).1 (hrank.asks ht hr hm).2
    obtain ⟨hbody, hq'⟩ := realizeWith_computes (hask _) hn h hb
    show ∃ v r, (if Busy.task name ∈ busy then _ else _ : ConfigM String) q = .ok v r
    rw [if_neg hn, bind_of_ok hb]
    cases hr : read b with
    | text v => exact ⟨v, q', rfl⟩
    | provider other =>
      obtain ⟨hlt, hless⟩ := hread b other hbody hr
      exact hret' other hlt hless (hq'.toResolves.of_busy fun _ hb => List.mem_cons_of_mem _ hb)
  | _ => exact ⟨_, q, rfl⟩

/-- Where there is a rank, every value is computed that has a lower one than all that is busy. -/
theorem evaluateWith_returns (hm : p.Memo) (hrank : p.Ranked rank) (depth : Nat) (busy : List Busy) (id : ProviderId)
    (hid : id < p.providers.length) (hbusy : ∀ b ∈ busy, rank (.provider id) < rank b) (hroom : Room p depth busy) :
    Returns p busy (ConfigM.evaluateWith depth busy) id := by
  induction depth generalizing busy id with
  | zero => exact absurd hroom.pos (Nat.lt_irrefl 0)
  | succ depth ih =>
    intro q h
    have hq : id < q.providers.length := h.length ▸ hid
    have hcell := List.getElem?_eq_getElem hq
    unfold ConfigM.evaluateWith
    rw [bind_of_ok (get_apply q), hcell]
    dsimp only
    cases hvalue : q.providers[id].value with
    | some v => exact ⟨v, q, rfl⟩
    | none =>
      have hn : .provider id ∉ busy := fun hb => absurd (hbusy _ hb) (Nat.lt_irrefl _)
      have hp := h.cell_of_none hcell hvalue
      have hbusy' : ∀ b ∈ .provider id :: busy, rank (.provider id) ≤ rank b := by
        intro b hb
        rcases List.mem_cons.mp hb with rfl | hb
        · exact Nat.le_refl _
        · exact Nat.le_of_lt (hbusy b hb)
      obtain ⟨v, r, hrun⟩ := runThunk_returns hrank (evaluateWith_computes hm depth) (Resolves.provider_iff.mpr h) hp
        hvalue hbusy' fun tasks other hlt hless htasks => by
          refine ih _ other hlt ?_ ?_
          · intro b hb
            rcases List.mem_append.mp hb with hb | hb
            · obtain ⟨name, hname, rfl⟩ := List.mem_map.mp hb
              exact htasks name hname
            · exact Nat.lt_of_lt_of_le hless (hbusy' b hb)
          · induction tasks with
            | nil => exact hroom.provider hid hn
            | cons name tasks iht => exact (iht fun name hm => htasks name (List.mem_cons_of_mem _ hm)).task name
      refine ⟨v, r.keep id v, ?_⟩
      show (if Busy.provider id ∈ busy then _ else _ : ConfigM String) q = _
      rw [if_neg hn, hm.fresh _ (List.mem_of_getElem? hp) hvalue, bind_of_ok hrun]
      rfl

end

/-! ## From the start -/

/-- A value that is computed with nothing else under way is what the lazy value comes to. -/
theorem evaluate_computes {p q : Project} (hm : p.Memo) {id : ProviderId} {v : String}
    (hok : ConfigM.evaluate id p = .ok v q) : p.HasValue id v ∧ Resolves p [] q ∧ q.kept? id = some v := by
  obtain ⟨hv, hq, hkept⟩ := evaluateBusy_computes hm [] (.refl hm.mapped) hok
  exact ⟨hv, hq.toResolves, hkept⟩

theorem realize_computes {p q : Project} (hm : p.Memo) {name : String} {body : TaskBody}
    (hok : ConfigM.realize name p = .ok body q) : p.HasBody name body ∧ Resolves p [] q := by
  obtain ⟨hbody, hq⟩ := realizeWith_computes (evaluateBusy_computes hm _) List.not_mem_nil (.refl hm.mapped) hok
  exact ⟨hbody, hq.toResolves⟩

theorem evaluate_returns {p : Project} {rank : Busy → Nat} (hm : p.Memo) (hrank : p.Ranked rank) {id : ProviderId}
    (hid : id < p.providers.length) : ∃ v q, ConfigM.evaluate id p = .ok v q := by
  have hroom : Room p (p.providers.length + 1) [] := ⟨List.nodup_nil, by simp [busyProviders], Nat.le_refl _⟩
  exact evaluateWith_returns hm hrank _ [] id hid (by simp) hroom (.refl hm.mapped)

end Project

end BuildGraph

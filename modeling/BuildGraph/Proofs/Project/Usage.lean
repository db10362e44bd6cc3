/-
  BuildGraph.Proofs.Project.Usage: what programs see of lazy values.

  A program creates lazy values, gets them and uses them again and again, while properties are set, tasks registered
  and configured, and whatever else is done to the project (`Uses`). One step only ever adds lazy values and keeps
  some that were not kept (`Carries`).

  - `Uses.carries`: what one step does to the lazy values.
  - `memoized_of_used`: so in every program a lazy value is computed at most once, when it is first asked for, to
    what it comes to then, and is the same from then on; and a value made from another is always made from what the
    other is.
-/

import BuildGraph.Proofs.Project.Memoization
import Mathlib.Logic.Relation

namespace BuildGraph

open Operation

namespace Project

/-- One step of a program that uses lazy values. To clone a lazy value is to use its number again. -/
inductive Uses : Project → Project → Prop
  /-- A lazy value is created from what it is to be computed from. -/
  | create {p : Project} (thunk : Thunk) : Uses p (after (ConfigM.addProviders [{ thunk := thunk }]) p)
  /-- A value that is there from the start. -/
  | of {p : Project} (v : String) : Uses p (after (ConfigM.addProviders [.of v]) p)
  | get {p q : Project} {id : ProviderId} {v : String} : ConfigM.evaluate id p = .ok v q → Uses p q
  | realize {p q : Project} {name : String} {body : TaskBody} : ConfigM.realize name p = .ok body q → Uses p q
  /-- A property is set or updated, a task is registered or configured: anything that leaves the lazy values as they
      are. -/
  | elsewhere {p q : Project} : q.providers = p.providers → Uses p q

/-- What a program leads to. -/
abbrev Used : Project → Project → Prop := Relation.ReflTransGen Uses

/-- The lazy values of `p` are those of `q`, and what was not kept in `p` but is in `q` is what it comes to in `p`. -/
structure Carries (p q : Project) : Prop where
  cell : ∀ {id : ProviderId} {c : Provider}, p.providers[id]? = some c → q.providers[id]? = some c ∨
    c.value = none ∧ ∃ v, q.providers[id]? = some { c with value := some v, runs := c.runs + 1 } ∧ p.HasValue id v
  /-- The others are new. -/
  fresh : ∀ {id : ProviderId} {c : Provider}, p.providers[id]? = none → q.providers[id]? = some c →
    c.runs = 0 ∧ ∀ v, c.value = some v → c = .of v

section

variable {p q : Project}

theorem Resolves.carries {busy : List Busy} (h : Resolves p busy q) : Carries p q := by
  refine ⟨h.cell, fun hnone hc => ?_⟩
  have hlt := (List.getElem?_eq_some_iff.mp hc).1
  rw [h.length] at hlt
  exact absurd hlt (Nat.not_lt.mpr (List.getElem?_eq_none_iff.mp hnone))

theorem carries_of_append {cell : Provider} (hruns : cell.runs = 0) (hof : ∀ v, cell.value = some v → cell = .of v) :
    Carries p (after (ConfigM.addProviders [cell]) p) := by
  constructor
  · intro id c hc
    exact .inl ((List.getElem?_append_left (List.getElem?_eq_some_iff.mp hc).1).trans hc)
  · intro id c hnone hc
    have hc' : (p.providers ++ [cell])[id]? = some c := hc
    rw [List.getElem?_append_right (List.getElem?_eq_none_iff.mp hnone)] at hc'
    rcases List.mem_singleton.mp (List.mem_of_getElem? hc') with rfl
    exact ⟨hruns, hof⟩

/-- What is kept stays as it is. -/
theorem Carries.kept? (h : Carries p q) {id : ProviderId} {v : String} (hv : p.kept? id = some v) :
    q.kept? id = some v := by
  obtain ⟨c, hc, hvalue⟩ := Option.bind_eq_some_iff.mp hv
  rcases h.cell hc with hsame | ⟨hnone, -⟩
  · rw [Project.kept?, hsame]
    exact hvalue
  · rw [hnone] at hvalue
    cases hvalue

/-- How often thunks were run is told by what is kept. -/
theorem Carries.memo (h : Carries p q) (hm : p.Memo) (hmapped : q.Mapped) : q.Memo := by
  have hcell : ∀ c ∈ q.providers, (c.value = none → c.runs = 0) ∧ c.runs ≤ 1 := by
    intro c hc
    obtain ⟨id, hid⟩ := List.mem_iff_getElem?.mp hc
    cases hp : p.providers[id]? with
    | none =>
      have hruns := (h.fresh hp hid).1
      exact ⟨fun _ => hruns, by omega⟩
    | some c' =>
      have hmem := List.mem_of_getElem? hp
      rcases h.cell hp with hsame | ⟨hnone, v, hkeep, -⟩
      · rw [hid] at hsame
        cases hsame
        exact ⟨hm.fresh c hmem, hm.once c hmem⟩
      · rw [hid] at hkeep
        cases hkeep
        have hruns := hm.fresh c' hmem hnone
        exact ⟨fun hf => absurd hf (by simp), by simp [hruns]⟩
  exact ⟨fun c hc => (hcell c hc).1, fun c hc => (hcell c hc).2, hmapped⟩

theorem mapped_of_append {cell : Provider} (hm : p.Mapped) (hof : ∀ v, cell.value = some v → cell = .of v) :
    Mapped (after (ConfigM.addProviders [cell]) p) := by
  intro id c s f v hc hthunk hv
  have hc' : (p.providers ++ [cell])[id]? = some c := hc
  by_cases hid : id < p.providers.length
  · rw [List.getElem?_append_left hid] at hc'
    obtain ⟨u, hu, he⟩ := hm id c s f v hc' hthunk hv
    obtain ⟨source, hsource, hvalue⟩ := Option.bind_eq_some_iff.mp hu
    refine ⟨u, Option.bind_eq_some_iff.mpr ⟨source, ?_, hvalue⟩, he⟩
    exact (List.getElem?_append_left (List.getElem?_eq_some_iff.mp hsource).1).trans hsource
  · rw [List.getElem?_append_right (Nat.not_lt.mp hid)] at hc'
    rcases List.mem_singleton.mp (List.mem_of_getElem? hc') with rfl
    rw [hof v hv] at hthunk
    cases hthunk

/-- What one step of a program keeps. -/
theorem Uses.carries (h : Uses p q) (hm : p.Memo) : Carries p q ∧ q.Memo := by
  cases h with
  | create thunk =>
    have hof : ∀ v, ({ thunk := thunk } : Provider).value = some v → ({ thunk := thunk } : Provider) = .of v := by simp
    have hq := @carries_of_append p { thunk := thunk } rfl hof
    exact ⟨hq, hq.memo hm (mapped_of_append hm.mapped hof)⟩
  | of v =>
    have hof : ∀ w, (Provider.of v).value = some w → Provider.of v = .of w := by
      intro w hw
      cases hw
      rfl
    have hq := @carries_of_append p (.of v) rfl hof
    exact ⟨hq, hq.memo hm (mapped_of_append hm.mapped hof)⟩
  | get hok =>
    have hq := (evaluate_computes hm hok).2.1
    exact ⟨hq.carries, hq.carries.memo hm hq.mapped⟩
  | realize hok =>
    have hq := (realize_computes hm hok).2
    exact ⟨hq.carries, hq.carries.memo hm hq.mapped⟩
  | elsewhere he =>
    refine ⟨⟨fun hc => .inl (he ▸ hc), fun hnone hc => ?_⟩, ?_⟩
    · rw [he, hnone] at hc
      cases hc
    · have hkept : q.kept? = p.kept? := by
        funext id
        rw [Project.kept?, Project.kept?, he]
      refine ⟨he ▸ hm.fresh, he ▸ hm.once, fun id c s f v hc hthunk hv => ?_⟩
      rw [hkept]
      exact hm.mapped id c s f v (he ▸ hc) hthunk hv

/-! ## Gets -/

/-- Getting a value that is kept changes nothing. -/
theorem evaluateWith_of_kept {id : ProviderId} {v : String} (h : p.kept? id = some v) (depth : Nat) (busy : List Busy) :
    ConfigM.evaluateWith (depth + 1) busy id p = .ok v p := by
  obtain ⟨cell, hcell, hv⟩ := Option.bind_eq_some_iff.mp h
  unfold ConfigM.evaluateWith
  rw [bind_of_ok (get_apply p), hcell]
  simp only [hv]
  rfl

theorem evaluate_of_kept {id : ProviderId} {v : String} (h : p.kept? id = some v) : ConfigM.evaluate id p = .ok v p :=
  evaluateWith_of_kept h _ []

/-- Getting a value that is not kept runs its thunk, and keeps what this gives. -/
theorem evaluateWith_of_not_kept {id : ProviderId} {cell : Provider} {v : String} {depth : Nat} {busy : List Busy}
    (hcell : p.providers[id]? = some cell) (hvalue : cell.value = none) (hbusy : .provider id ∉ busy)
    (hrun : ConfigM.runThunk (ConfigM.evaluateWith depth) (.provider id :: busy) cell.runs cell.thunk p = .ok v q) :
    ConfigM.evaluateWith (depth + 1) busy id p = .ok v (q.keep id v) := by
  unfold ConfigM.evaluateWith
  rw [bind_of_ok (get_apply p), hcell]
  simp only [hvalue]
  show (if Busy.provider id ∈ busy then _ else _ : ConfigM String) p = _
  rw [if_neg hbusy, bind_of_ok hrun]
  rfl

/-- A value that reads a task is what is read from the body the task is realized with. -/
theorem runThunk_fromTask {ask : List Busy → ProviderId → ConfigM String} {busy : List Busy} {runs : Nat} {task : String}
    {read : TaskBody → Reading} {body : TaskBody} {r : Project} {v : String} (hbusy : .task task ∉ busy)
    (hrealize : ConfigM.realizeWith (ask (.task task :: busy)) task p = .ok body q)
    (hgives : read body = .text v ∧ r = q ∨
      ∃ id, read body = .provider id ∧ ask (.task task :: busy) id q = .ok v r) :
    ConfigM.runThunk ask busy runs (.fromTask task read) p = .ok v r := by
  show (if Busy.task task ∈ busy then _ else _ : ConfigM String) p = _
  rw [if_neg hbusy, bind_of_ok hrealize]
  rcases hgives with ⟨hread, rfl⟩ | ⟨id, hread, hask⟩
  · simp only [hread]
    rfl
  · simp only [hread]
    exact hask

/-- A value made from one that is kept is made when it is got, if it was not before. -/
theorem evaluate_map (hm : p.Memo) {id s : ProviderId} {cell : Provider} {f : String → String} {u : String}
    (hcell : p.providers[id]? = some cell) (hthunk : cell.thunk = .map s f) (hs : p.kept? s = some u) :
    ∃ q, ConfigM.evaluate id p = .ok (f u) q := by
  cases hvalue : cell.value with
  | some v =>
    obtain ⟨u', hu', rfl⟩ := hm.mapped id cell s f v hcell hthunk hvalue
    rw [hs] at hu'
    cases hu'
    refine ⟨p, evaluate_of_kept ?_⟩
    rw [kept?, hcell, Option.bind_some, hvalue]
  | none =>
    have hid := (List.getElem?_eq_some_iff.mp hcell).1
    obtain ⟨n, hn⟩ := Nat.exists_eq_succ_of_ne_zero (Nat.ne_zero_of_lt hid)
    have hrun : ConfigM.runThunk (ConfigM.evaluateWith (n + 1)) [.provider id] cell.runs cell.thunk p = .ok (f u) p := by
      rw [hthunk]
      exact bind_of_ok (evaluateWith_of_kept hs n _)
    refine ⟨p.keep id (f u), ?_⟩
    unfold ConfigM.evaluate ConfigM.evaluateBusy
    rw [bind_of_ok (get_apply p), hn]
    exact evaluateWith_of_not_kept hcell hvalue List.not_mem_nil hrun

end

/-! ## Whole programs -/

variable {start p q : Project}

theorem Used.carries (h : Used p q) (hm : p.Memo) :
    q.Memo ∧ (∀ {id : ProviderId} {v : String}, p.kept? id = some v → q.kept? id = some v) ∧
      ∀ {id : ProviderId} {c : Provider}, p.providers[id]? = some c →
        ∃ c' : Provider, q.providers[id]? = some c' ∧ c'.thunk = c.thunk := by
  induction h with
  | refl => exact ⟨hm, id, fun hc => ⟨_, hc, rfl⟩⟩
  | tail _ hstep ih =>
    obtain ⟨hm, hkept, hthunk⟩ := ih
    obtain ⟨hcarries, hm'⟩ := hstep.carries hm
    refine ⟨hm', fun hv => hcarries.kept? (hkept hv), fun hc => ?_⟩
    obtain ⟨c₁, hc₁, he⟩ := hthunk hc
    rcases hcarries.cell hc₁ with hsame | ⟨-, v, hkeep, -⟩
    · exact ⟨c₁, hsame, he⟩
    · exact ⟨_, hkeep, he⟩

theorem memo_of_used (hstart : start.providers = []) (h : Used start p) : p.Memo := by
  refine (Used.carries h ⟨?_, ?_, ?_⟩).1
  · simp [hstart]
  · simp [hstart]
  · intro id c s f v hc
    simp [hstart] at hc

/-- A value that is kept was there from the start, or was computed in a step of the program that found it not kept, to
    what its thunk gave in the project before that step. -/
theorem exists_first_get (hstart : start.providers = []) (h : Used start p) {id : ProviderId} {cell : Provider}
    {v : String} (hcell : p.providers[id]? = some cell) (hv : cell.value = some v) :
    cell = .of v ∨ ∃ (p₁ p₂ : Project) (c : Provider), Used start p₁ ∧ Uses p₁ p₂ ∧ Used p₂ p ∧
      p₁.providers[id]? = some c ∧ c.value = none ∧ c.thunk = cell.thunk ∧ p₁.Gives cell.thunk v ∧
        p₂.kept? id = some v := by
  induction h generalizing cell with
  | refl => simp [hstart] at hcell
  | @tail p₀ p hrun hstep ih =>
    obtain ⟨hcarries, -⟩ := hstep.carries (memo_of_used hstart hrun)
    cases hc : p₀.providers[id]? with
    | none => exact .inl ((hcarries.fresh hc hcell).2 v hv)
    | some c =>
      rcases hcarries.cell hc with hsame | ⟨hnone, w, hkeep, hw⟩
      · rw [hsame] at hcell
        cases hcell
        rcases ih hc hv with hof | ⟨p₁, p₂, c₁, hbefore, hget, hafter, hfirst⟩
        · exact .inl hof
        · exact .inr ⟨p₁, p₂, c₁, hbefore, hget, hafter.tail hstep, hfirst⟩
      · rw [hkeep] at hcell
        cases hcell
        cases hv
        refine .inr ⟨p₀, p, c, hrun, hstep, .refl, hc, hnone, rfl, (hasValue_iff_gives hc hnone).mp hw, ?_⟩
        rw [kept?, hkeep]
        rfl

/-- What a program that leads from `start` to `p` sees of lazy values, before and after. -/
structure Memoized (start p : Project) : Prop where
  /-- No thunk is run twice. -/
  once : ∀ cell ∈ p.providers, cell.runs ≤ 1
  /-- A lazy value is created without computing it or any other. -/
  create : ∀ thunk id, (after (ConfigM.addProviders [{ thunk := thunk }]) p).isResolved id = p.isResolved id
  /-- What is computed stays so. -/
  resolved : ∀ q id, Used p q → p.isResolved id = true → q.isResolved id = true
  /-- Unless it was there from the start, a value that is kept is what its thunk gave when it was first asked for. -/
  first : ∀ (id : ProviderId) (cell : Provider) (v : String), p.providers[id]? = some cell → cell.value = some v →
    cell = .of v ∨ ∃ (p₁ p₂ : Project) (c : Provider), Used start p₁ ∧ Uses p₁ p₂ ∧ Used p₂ p ∧
      p₁.providers[id]? = some c ∧ c.value = none ∧ c.thunk = cell.thunk ∧ p₁.Gives cell.thunk v ∧ p₂.kept? id = some v
  /-- A get gives what the value comes to, and every later one gives the same and changes nothing. -/
  get : ∀ id v q, ConfigM.evaluate id p = .ok v q → p.HasValue id v ∧ ∀ r, Used q r → ConfigM.evaluate id r = .ok v r
  /-- Values that do not depend on themselves can be got. -/
  returns : ∀ rank, p.Ranked rank → ∀ id < p.providers.length, ∃ v q, ConfigM.evaluate id p = .ok v q
  /-- A value made from another is made from what the other is, whichever is got first. -/
  map : ∀ (id : ProviderId) (cell : Provider) (s : ProviderId) (f : String → String), p.providers[id]? = some cell →
    cell.thunk = .map s f →
    (∀ v q, ConfigM.evaluate id p = .ok v q → ∃ u, v = f u ∧ ∀ r, Used q r → ConfigM.evaluate s r = .ok u r) ∧
      ∀ u q, ConfigM.evaluate s p = .ok u q → ∀ r, Used q r → ∃ r', ConfigM.evaluate id r = .ok (f u) r'

theorem memoized_of_used (hstart : start.providers = []) (h : Used start p) : Memoized start p := by
  have hm := memo_of_used hstart h
  -- What a get leaves behind is one more step of the program.
  have hget : ∀ {id v q}, ConfigM.evaluate id p = .ok v q → q.Memo ∧ q.kept? id = some v := fun hok =>
    ⟨((Uses.get hok).carries hm).2, (evaluate_computes hm hok).2.2⟩
  refine ⟨hm.once, ?_, ?_, fun _ _ _ => exists_first_get hstart h, ?_, fun rank hrank id => evaluate_returns hm hrank, ?_⟩
  · intro thunk id
    show (((p.providers ++ [_])[id]?).bind (·.value)).isSome = ((p.providers[id]?).bind (·.value)).isSome
    by_cases hid : id < p.providers.length
    · rw [List.getElem?_append_left hid]
    · have hle := Nat.not_lt.mp hid
      rw [List.getElem?_append_right hle, List.getElem?_eq_none_iff.mpr hle]
      cases id - p.providers.length <;> rfl
  · intro q id hq hp
    obtain ⟨v, hv⟩ := Option.isSome_iff_exists.mp hp
    exact Option.isSome_iff_exists.mpr ⟨v, (Used.carries hq hm).2.1 hv⟩
  · intro id v q hok
    obtain ⟨hmq, hkept⟩ := hget hok
    exact ⟨(evaluate_computes hm hok).1, fun r hr => evaluate_of_kept ((Used.carries hr hmq).2.1 hkept)⟩
  · intro id cell s f hcell hthunk
    constructor
    · intro v q hok
      obtain ⟨hmq, hkept⟩ := hget hok
      obtain ⟨c, hc, hv⟩ := Option.bind_eq_some_iff.mp hkept
      obtain ⟨c', hc', he⟩ := (Used.carries (.single (.get hok)) hm).2.2 hcell
      rw [hc] at hc'
      cases hc'
      obtain ⟨u, hu, rfl⟩ := hmq.mapped id c s f v hc (he.trans hthunk) hv
      exact ⟨u, rfl, fun r hr => evaluate_of_kept ((Used.carries hr hmq).2.1 hu)⟩
    · intro u q hok r hr
      obtain ⟨hmq, hkept⟩ := hget hok
      obtain ⟨hmr, hlater, -⟩ := Used.carries hr hmq
      obtain ⟨c, hc, he⟩ := (Used.carries (.head (.get hok) hr) hm).2.2 hcell
      exact evaluate_map hmr hc (he.trans hthunk) (hlater hkept)

/-- A property is set twice: before its value is first got, through a value made from it, and after. -/
theorem memoized_of_used_set_twice :
    let start : Project := { (default : Project) with properties := ["first"] }
    let p : Project := { start with
      properties := ["second"], providers := [{ thunk := .property 0 }, { thunk := .map 0 fun s => s ++ "!" }] }
    Used start p ∧ (∃ rank, p.Ranked rank) ∧ ∃ q, ConfigM.evaluate 1 p = .ok "second!" q ∧
      let r : Project := { q with properties := ["third"] }
      ConfigM.evaluate 1 r = .ok "second!" r ∧ ConfigM.evaluate 0 r = .ok "second" r := by
  intro start p
  have hcreated : Used start { p with properties := ["first"] } :=
    (Relation.ReflTransGen.single (.create (.property 0))).tail (.create _)
  have hrun : Used start p := hcreated.tail (.elsewhere rfl)
  have hranked : p.Ranked fun b => b.casesOn (fun id => id) fun _ => 0 := by
    refine ⟨?_, ?_, fun ht => by cases ht⟩
    all_goals
      intro id cell s f hcell _ hthunk
      rcases id with _ | _ | id <;> simp [p] at hcell <;> subst hcell <;> cases hthunk
    exact ⟨Nat.zero_lt_succ 1, Nat.zero_lt_one⟩
  obtain ⟨v, q, hget⟩ := (memoized_of_used rfl hrun).returns _ hranked 1 (Nat.lt_succ_self 1)
  obtain ⟨rfl, rfl⟩ : "second!" = v ∧ (p.keep 0 "second").keep 1 "second!" = q := by
    cases hget
    exact ⟨rfl, rfl⟩
  have hsource : ConfigM.evaluate 0 ((p.keep 0 "second").keep 1 "second!") = .ok "second" _ := rfl
  refine ⟨hrun, ⟨_, hranked⟩, _, hget, ?_, ?_⟩
  · exact ((memoized_of_used rfl hrun).get 1 _ _ hget).2 _ (.single (.elsewhere rfl))
  · exact ((memoized_of_used rfl (hrun.tail (.get hget))).get 0 _ _ hsource).2 _ (.single (.elsewhere rfl))

end Project

end BuildGraph

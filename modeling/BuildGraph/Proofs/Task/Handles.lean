/-
  BuildGraph.Proofs.Task.Handles: what a handle vouches for.

  A handle is given out once the type of its task is known, and is used long after. `Handled p l` says that the tasks of
  `p` came about by registering tasks, looking them up, configuring and realizing them through handles, taking lazy values
  from them and computing these, and finalizing, in any order; the ledger `l` has the types the tasks were registered with,
  the handles that were given out, and the lazy values taken through them.

  A configurator made for one type does nothing to a body of another, and a body of another type cannot be read through a
  handle. `Checked` is evaluation that stops with an error where either would happen.

  - `Ledger.Fits`: bodies, configurators that wait, and lazy values taken from tasks have the types in the ledger.
  - `Agrees`: on a project that fits its ledger, checked and unchecked evaluation do the same.
  - `Handled.type_checked_once`: so no handle is ever wrong about its task.
-/

import BuildGraph.Proofs.Task.Submission

namespace BuildGraph

open Operation

/-! ## Checked evaluation -/

namespace Checked

/-- Goes on with a body of the type only. -/
def expect (name : String) (kind : TaskKind) (body : TaskBody) : ConfigM Unit :=
  if body.kind = kind then pure ⟨⟩ else throw (.taskTypeMismatch name kind body.kind)

/-- Runs a configurator, and fails if that would skip it. -/
def run (name : String) (ask : ProviderId → ConfigM String) (body : TaskBody) (c : Configurator) : ConfigM TaskBody := do
  expect name c.kind body
  c.run ask body

/-! All else is done as without checks. -/

def realizeWith (ask : ProviderId → ConfigM String) (name : String) : ConfigM TaskBody := do
  let task ← ConfigM.ofExcept ((← get).tasks.get name)
  if task.realized then return task.body
  modify fun p => { p with tasks := p.tasks.update name fun t => { t with realized := true, pending := [] } }
  let body ← task.pending.foldlM (run name ask) task.body
  modify fun p => { p with tasks := p.tasks.update name fun t => { t with body := body } }
  return body

variable (taken : List (ProviderId × TaskHandle))

/-- Runs the thunk of the lazy value with number `id`; it fails if it reads a body of another type than that of the handle
    it was taken through. -/
def runThunk (id : ProviderId) (ask : List Busy → ProviderId → ConfigM String) (busy : List Busy) (runs : Nat) :
    Thunk → ConfigM String
  | .fromTask task read => do
    if Busy.task task ∈ busy then throw .selfDependentValue
    let busy := .task task :: busy
    let body ← realizeWith (ask busy) task
    match taken.lookup id with
    | none => throw (.taskNotFound task)
    | some handle => do
      expect task handle.kind body
      match read body with
      | .text value => return value
      | .provider id => ask busy id
  | thunk => ConfigM.runThunk ask busy runs thunk

def evaluateWith : Nat → List Busy → ProviderId → ConfigM String
  | 0, _, _ => throw .selfDependentValue
  | depth + 1, busy, id => do
    match (← get).providers[id]? with
    | none => throw .selfDependentValue
    | some cell =>
      match cell.value with
      | some value => return value
      | none =>
        if Busy.provider id ∈ busy then throw .selfDependentValue
        let value ← runThunk taken id (evaluateWith depth) (.provider id :: busy) cell.runs cell.thunk
        ConfigM.resolve id value
        return value

def evaluateBusy (busy : List Busy) (id : ProviderId) : ConfigM String := do
  evaluateWith taken ((← get).providers.length + 1) busy id

def evaluate (id : ProviderId) : ConfigM String := evaluateBusy taken [] id

def realize (name : String) : ConfigM TaskBody := realizeWith (evaluateBusy taken [.task name]) name

/-- Realizes the task of a handle, and fails if its body cannot be read through the handle. -/
def realizeThrough (handle : TaskHandle) : ConfigM TaskBody := do
  let body ← realize taken handle.name
  expect handle.name handle.kind body
  return body

def configure (name : String) (configurators : List Configurator) : ConfigM Unit := do
  let task ← ConfigM.ofExcept ((← get).tasks.get name)
  if task.realized then
    let body ← configurators.foldlM (run name (evaluateBusy taken [.task name])) task.body
    modify fun p => { p with tasks := p.tasks.update name fun t => { t with body := body } }
  else
    modify fun p =>
      { p with tasks := p.tasks.update name fun t => { t with pending := t.pending ++ configurators } }

def realizeChecked (name : String) : ConfigM Unit := do
  match (← realize taken name).missingInput with
  | some property => throw (.missingTaskInput name property)
  | none => return ()

def finalize : ConfigM (List String) := do
  (← get).tasks.names.forM (realizeChecked taken)
  ConfigM.executionOrder

end Checked

/-! ## Ledgers -/

/-- The lazy value with number `id` is read from the task. -/
def Project.Takes (p : Project) (id : ProviderId) (task : String) : Prop :=
  ∃ cell read, p.providers[id]? = some cell ∧ cell.thunk = .fromTask task read

/-- What was registered and given out. -/
structure Ledger where
  /-- The types the tasks were registered with. -/
  registered : List (String × TaskKind) := []
  handles : List TaskHandle := []
  /-- The lazy values that are read from tasks, and the handles they were taken through. -/
  taken : List (ProviderId × TaskHandle) := []

/-- The type the task called `name` was registered with. -/
def Ledger.kindOf (l : Ledger) (name : String) : Option TaskKind := l.registered.lookup name

/-- The tasks of a project, reached by registering tasks, each with configurators of its type, looking tasks up by name and
    type, configuring them through handles, realizing them, taking lazy values from them through handles and computing
    these, and finalizing; and the ledger of what was given out on the way. -/
inductive Handled : Project → Ledger → Prop
  | start {p : Project} : p.tasks.entries = [] → (∀ id task, ¬ p.Takes id task) → Handled p {}
  | register {p q : Project} {l : Ledger} {name : String} {cs : List Configurator} (kind : TaskKind)
      (content : kind.Content) :
    Handled p l → (∀ c ∈ cs, c.kind = kind) → ConfigM.registerTask name (.of kind content) cs p = .ok ⟨⟩ q →
      Handled q { l with registered := (name, kind) :: l.registered, handles := ⟨name, kind⟩ :: l.handles }
  | named {p : Project} {l : Ledger} {handle : TaskHandle} :
    Handled p l → p.tasks.named handle.kind handle.name = .ok handle → Handled p { l with handles := handle :: l.handles }
  | configure {p : Project} {l : Ledger} {handle : TaskHandle} {cs : List Configurator} :
    Handled p l → handle ∈ l.handles → (∀ c ∈ cs, c.kind = handle.kind) →
      Handled (after (ConfigM.configure handle.name cs) p) l
  | realize {p : Project} {l : Ledger} (name : String) : Handled p l → Handled (after (ConfigM.realize name) p) l
  | flatMap {p : Project} {l : Ledger} {handle : TaskHandle} (read : TaskBody → Reading) :
    Handled p l → handle ∈ l.handles →
      Handled { p with providers := p.providers ++ [{ thunk := .fromTask handle.name read }] }
        { l with taken := (p.nextProvider, handle) :: l.taken }
  | evaluate {p : Project} {l : Ledger} (id : ProviderId) : Handled p l → Handled (after (ConfigM.evaluate id) p) l
  | finalize {p : Project} {l : Ledger} : Handled p l → Handled (after ConfigM.finalize p) l
  /-- Anything else may be done to the project, and lazy values added that are not read from tasks. -/
  | elsewhere {p q : Project} {l : Ledger} : Handled p l → q.tasks.entries = p.tasks.entries →
    (∀ id task, q.Takes id task → p.Takes id task) → Handled q l

/-- The project has the types that the ledger says. -/
structure Ledger.Fits (l : Ledger) (p : Project) : Prop where
  bodies : ∀ name, (p.tasks.find? name).map (·.body.kind) = l.kindOf name
  pending : ∀ {name t}, p.tasks.find? name = some t → ∀ c ∈ t.pending, l.kindOf name = some c.kind
  handles : ∀ handle ∈ l.handles, l.kindOf handle.name = some handle.kind
  taken : ∀ {id task}, p.Takes id task → ∃ kind, l.taken.lookup id = some ⟨task, kind⟩ ∧ l.kindOf task = some kind

namespace Ledger.Fits

variable {l : Ledger} {p q : Project} {name : String} {t : Task}

theorem kind_eq (h : l.Fits p) (ht : p.tasks.find? name = some t) : l.kindOf name = some t.body.kind := by
  rw [← h.bodies name, ht]
  rfl

/-- The task called `name` is changed to one of the same type, with configurators of that type. -/
theorem update {f : Task → Task} (h : l.Fits p) (hf : ∀ t, (f t).name = t.name)
    (hbody : ∀ t, p.tasks.find? name = some t → l.kindOf name = some (f t).body.kind)
    (hpending : ∀ t, p.tasks.find? name = some t → ∀ c ∈ (f t).pending, l.kindOf name = some c.kind) :
    l.Fits { p with tasks := p.tasks.update name f } := by
  refine ⟨fun other => ?_, fun {other u} hu => ?_, h.handles, h.taken⟩
  · show ((p.tasks.update name f).find? other).map _ = _
    rw [Tasks.find?_update hf]
    split
    · rename_i he
      subst he
      cases ht : p.tasks.find? other with
      | none => rw [← h.bodies other, ht, Option.map_none]
      | some t => exact (hbody t ht).symm
    · exact h.bodies other
  · change (p.tasks.update name f).find? other = some u at hu
    rw [Tasks.find?_update hf] at hu
    split at hu
    · rename_i he
      subst he
      obtain ⟨t, ht, rfl⟩ := Option.map_eq_some_iff.mp hu
      exact hpending t ht
    · exact h.pending hu

/-- The task called `name` is marked as realized. -/
theorem mark (h : l.Fits p) (name : String) :
    l.Fits { p with tasks := p.tasks.update name fun t => { t with realized := true, pending := [] } } :=
  h.update (fun _ => rfl) (fun t ht => h.kind_eq (t := t) ht) fun _ _ _ hc => absurd hc List.not_mem_nil

/-- It gets another body of its type. -/
theorem body {body : TaskBody} (h : l.Fits p) (hbody : l.kindOf name = some body.kind) :
    l.Fits { p with tasks := p.tasks.update name fun t => { t with body := body } } :=
  h.update (fun _ => rfl) (fun _ _ => hbody) fun t ht => h.pending (t := t) ht

/-- More configurators of its type wait for it. -/
theorem wait {cs : List Configurator} (h : l.Fits p) (hcs : ∀ c ∈ cs, l.kindOf name = some c.kind) :
    l.Fits { p with tasks := p.tasks.update name fun t => { t with pending := t.pending ++ cs } } := by
  refine h.update (fun _ => rfl) (fun t ht => h.kind_eq (t := t) ht) fun t ht c hc => ?_
  rcases List.mem_append.mp hc with hc | hc
  · exact h.pending ht c hc
  · exact hcs c hc

/-- Nothing else about a project matters. -/
theorem of_takes (h : l.Fits p) (he : q.tasks.entries = p.tasks.entries)
    (ht : ∀ id task, q.Takes id task → p.Takes id task) : l.Fits q := by
  have hfind : q.tasks.find? = p.tasks.find? := by
    funext name
    rw [Tasks.find?, Tasks.find?, he]
  exact ⟨fun name => hfind ▸ h.bodies name, fun hu => h.pending (hfind ▸ hu), h.handles, fun hid => h.taken (ht _ _ hid)⟩

theorem resolve (h : l.Fits p) (id : ProviderId) (value : String) :
    l.Fits { p with providers := p.providers.modify id fun c => { c with value := some value, runs := c.runs + 1 } } := by
  refine h.of_takes rfl fun other task hid => ?_
  obtain ⟨cell, read, hcell, hthunk⟩ := hid
  obtain ⟨cell', hcell', rfl⟩ := Option.map_eq_some_iff.mp (List.getElem?_modify .. ▸ hcell)
  refine ⟨cell', read, hcell', ?_⟩
  split at hthunk <;> exact hthunk

end Ledger.Fits

/-! ## Checked and unchecked evaluation -/

/-- Started in `p`, the two do the same; they leave a project that fits the ledger, and a result as `Q` says. -/
structure Agrees (l : Ledger) {α : Type} (Q : α → Prop) (m m' : ConfigM α) (p : Project) : Prop where
  eq : m p = m' p
  fits : l.Fits (after m' p)
  result : ∀ {a q}, m' p = .ok a q → Q a

namespace Agrees

section

variable {l : Ledger} {α β : Type} {Q : α → Prop} {Q' : β → Prop} {m m' : ConfigM α} {f f' : α → ConfigM β}
variable {p : Project}

theorem of_pure {a : α} (h : l.Fits p) (ha : Q a) : Agrees l Q (pure a) (pure a) p where
  eq := rfl
  fits := h
  result hq := by
    cases hq
    exact ha

theorem of_throw (h : l.Fits p) (e : ConfigError) : Agrees l Q (throw e) (throw e) p where
  eq := rfl
  fits := h
  result hq := by cases hq

theorem of_modify {g : Project → Project} (h : l.Fits (g p)) : Agrees l (fun _ => True) (modify g) (modify g) p where
  eq := rfl
  fits := h
  result _ := trivial

theorem of_except {r : Except ConfigError α} (h : l.Fits p) (hr : ∀ {a}, r = .ok a → Q a) :
    Agrees l Q (ConfigM.ofExcept r) (ConfigM.ofExcept r) p := by
  cases r with
  | ok a => exact of_pure h (hr rfl)
  | error e => exact of_throw h e

theorem bind (hm : Agrees l Q m m' p) (hf : ∀ a q, Q a → l.Fits q → Agrees l Q' (f a) (f' a) q) :
    Agrees l Q' (m >>= f) (m' >>= f') p := by
  have heq := hm.eq
  have hfits := hm.fits
  cases hr : m' p with
  | error e q =>
    rw [hr] at heq
    rw [after_of_error hr] at hfits
    have herror := bind_of_error (f := f') hr
    refine ⟨(bind_of_error heq).trans herror.symm, ?_, fun hq => ?_⟩
    · rw [after_of_error herror]
      exact hfits
    · rw [herror] at hq
      cases hq
  | ok a q =>
    rw [hr] at heq
    rw [after_of_ok hr] at hfits
    obtain ⟨heq', hfits', hresult'⟩ := hf a q (hm.result hr) hfits
    refine ⟨?_, ?_, fun hq => hresult' ((bind_of_ok hr).symm.trans hq)⟩
    · rw [bind_of_ok heq, bind_of_ok hr, heq']
    · rw [after_bind_of_ok hr]
      exact hfits'

theorem get_bind {f f' : Project → ConfigM β} (hf : Agrees l Q' (f p) (f' p) p) :
    Agrees l Q' (get >>= f) (get >>= f') p := ⟨hf.eq, hf.fits, hf.result⟩

theorem forM {f f' : β → ConfigM PUnit} (hf : ∀ b q, l.Fits q → Agrees l (fun _ => True) (f b) (f' b) q) (bs : List β)
    (h : l.Fits p) : Agrees l (fun _ => True) (bs.forM f) (bs.forM f') p := by
  induction bs generalizing p with
  | nil => exact of_pure h trivial
  | cons b bs ih => exact bind (hf b p h) fun _ q _ hq => ih hq

end

section

variable {l : Ledger} {p : Project} {name : String} {kind : TaskKind} {ask ask' : ProviderId → ConfigM String}

/-- A check that succeeds makes no difference. -/
theorem expect_bind {α : Type} {Q : α → Prop} {f : Unit → ConfigM α} {m' : ConfigM α} {body : TaskBody}
    (hk : body.kind = kind) (hf : Agrees l Q (f ⟨⟩) m' p) : Agrees l Q (Checked.expect name kind body >>= f) m' p := by
  rw [Checked.expect, if_pos hk]
  exact ⟨hf.eq, hf.fits, hf.result⟩

variable (hask : ∀ id q, l.Fits q → Agrees l (fun _ => True) (ask id) (ask' id) q)

include hask

theorem readText (h : l.Fits p) (source : TextSource) :
    Agrees l (fun _ => True) (Configurator.readText ask source) (Configurator.readText ask' source) p := by
  cases source with
  | property id => exact .get_bind (.of_pure h trivial)
  | provider id => exact hask id p h

/-- A configurator is not skipped on a body of its type, and gives one of that type. -/
theorem run (h : l.Fits p) {body : TaskBody} {c : Configurator} (hb : body.kind = kind) (hc : c.kind = kind) :
    Agrees l (fun b => b.kind = kind) (Checked.run name ask body c) (c.run ask' body) p := by
  refine expect_bind (hb.trans hc.symm) ?_
  cases c with
  | change c => exact of_pure h ((Change.kind_apply c body).trans hb)
  | compileFrom unit =>
    refine .get_bind ?_
    split
    · exact of_pure h hb
    · exact of_pure h hb
  | resourcesFrom unit =>
    refine .get_bind ?_
    split
    · exact of_pure h hb
    · exact of_pure h hb
  | logFrom type source =>
    cases body with
    | custom other t =>
      show Agrees l _ (if type = other then _ else _ : ConfigM TaskBody)
        (if type = other then _ else _ : ConfigM TaskBody) p
      split
      · exact bind (readText hask h source) fun _ q _ hq => of_pure hq hb
      · exact of_pure h hb
    | _ => exact of_pure h hb

theorem runAll (h : l.Fits p) {body : TaskBody} {cs : List Configurator} (hb : body.kind = kind)
    (hcs : ∀ c ∈ cs, c.kind = kind) :
    Agrees l (fun b => b.kind = kind) (cs.foldlM (Checked.run name ask) body)
      (cs.foldlM (Configurator.run ask') body) p := by
  induction cs generalizing body p with
  | nil => exact of_pure h hb
  | cons c cs ih =>
    obtain ⟨hc, hcs⟩ := List.forall_mem_cons.mp hcs
    rw [List.foldlM_cons, List.foldlM_cons]
    exact bind (run hask h hb hc) fun b q hb hq => ih hq hb hcs

/-- A task that is realized has a body of its type, and none of its configurators is skipped. -/
theorem realizeWith (h : l.Fits p) (name : String) :
    Agrees l (fun b => l.kindOf name = some b.kind) (Checked.realizeWith ask name) (ConfigM.realizeWith ask' name) p := by
  refine .get_bind (.bind (Q := fun t => l.kindOf name = some t.body.kind ∧ ∀ c ∈ t.pending, l.kindOf name = some c.kind)
    (of_except h fun ht => ?_) fun t q ht hq => ?_)
  · have ht := Tasks.get_eq_ok ht
    exact ⟨h.kind_eq ht, h.pending ht⟩
  · obtain ⟨hbody, hpending⟩ := ht
    split
    · exact of_pure hq hbody
    · refine bind (of_modify (hq.mark name)) fun _ q _ hq => ?_
      have hcs : ∀ c ∈ t.pending, c.kind = t.body.kind := fun c hc => Option.some.inj ((hpending c hc).symm.trans hbody)
      refine bind (runAll hask hq rfl hcs) fun b q hb hq => ?_
      have hkind : l.kindOf name = some b.kind := hb ▸ hbody
      exact bind (of_modify (hq.body hkind)) fun _ q _ hq => of_pure hq hkind

end

variable {l : Ledger} {p : Project}

theorem runThunk {ask ask' : List Busy → ProviderId → ConfigM String}
    (hask : ∀ busy id q, l.Fits q → Agrees l (fun _ => True) (ask busy id) (ask' busy id) q) (h : l.Fits p)
    (busy : List Busy) (runs : Nat) {id : ProviderId} {cell : Provider} (hcell : p.providers[id]? = some cell) :
    Agrees l (fun _ => True) (Checked.runThunk l.taken id ask busy runs cell.thunk)
      (ConfigM.runThunk ask' busy runs cell.thunk) p := by
  cases hthunk : cell.thunk with
  | compute f => exact of_pure h trivial
  | property id => exact .get_bind (.of_pure h trivial)
  | group => exact .get_bind (.of_pure h trivial)
  | location l => exact .get_bind (.of_pure h trivial)
  | map source f => exact bind (hask busy source p h) fun _ q _ hq => of_pure hq trivial
  | fromTask task read =>
    obtain ⟨kind, htaken, hkind⟩ := h.taken ⟨cell, read, hcell, hthunk⟩
    show Agrees l _ (if Busy.task task ∈ busy then _ else _ : ConfigM String)
      (if Busy.task task ∈ busy then _ else _ : ConfigM String) p
    split
    · exact of_throw h _
    · refine bind (realizeWith (hask _) h task) fun body q hbody hq => ?_
      rw [htaken]
      have hsame : body.kind = kind := Option.some.inj (hbody.symm.trans hkind)
      refine expect_bind hsame ?_
      cases read body with
      | text value => exact of_pure hq trivial
      | provider id => exact hask _ id q hq

theorem evaluateWith (depth : Nat) (busy : List Busy) (id : ProviderId) (h : l.Fits p) :
    Agrees l (fun _ => True) (Checked.evaluateWith l.taken depth busy id) (ConfigM.evaluateWith depth busy id) p := by
  induction depth generalizing busy id p with
  | zero => exact of_throw h _
  | succ depth ih =>
    refine .get_bind ?_
    cases hcell : p.providers[id]? with
    | none => exact of_throw h _
    | some cell =>
      dsimp only
      cases cell.value with
      | some value => exact of_pure h trivial
      | none =>
        show Agrees l _ (if Busy.provider id ∈ busy then _ else _ : ConfigM String)
          (if Busy.provider id ∈ busy then _ else _ : ConfigM String) p
        split
        · exact of_throw h _
        · refine bind (runThunk (fun busy id q hq => ih busy id hq) h _ _ hcell) fun value q _ hq => ?_
          exact bind (of_modify (hq.resolve id value)) fun _ q _ hq => of_pure hq trivial

theorem evaluateBusy (busy : List Busy) (id : ProviderId) (h : l.Fits p) :
    Agrees l (fun _ => True) (Checked.evaluateBusy l.taken busy id) (ConfigM.evaluateBusy busy id) p :=
  .get_bind (evaluateWith _ busy id h)

theorem realize (name : String) (h : l.Fits p) :
    Agrees l (fun b => l.kindOf name = some b.kind) (Checked.realize l.taken name) (ConfigM.realize name) p :=
  realizeWith (fun id _ hq => evaluateBusy _ id hq) h name

/-- A body that is read through a handle of its type is read. -/
theorem realizeThrough {handle : TaskHandle} (h : l.Fits p) (hk : l.kindOf handle.name = some handle.kind) :
    Agrees l (fun b => b.kind = handle.kind) (Checked.realizeThrough l.taken handle) (ConfigM.realize handle.name) p := by
  rw [← bind_pure (ConfigM.realize handle.name)]
  refine bind (realize handle.name h) fun b q hb hq => ?_
  have hsame : b.kind = handle.kind := Option.some.inj (hb.symm.trans hk)
  exact expect_bind hsame (of_pure hq hsame)

theorem configure {name : String} {cs : List Configurator} (h : l.Fits p) (hcs : ∀ c ∈ cs, l.kindOf name = some c.kind) :
    Agrees l (fun _ => True) (Checked.configure l.taken name cs) (ConfigM.configure name cs) p := by
  refine .get_bind (.bind (Q := fun t => l.kindOf name = some t.body.kind)
    (of_except h fun ht => h.kind_eq (Tasks.get_eq_ok ht)) fun t q hbody hq => ?_)
  split
  · have hkinds : ∀ c ∈ cs, c.kind = t.body.kind := fun c hc => Option.some.inj ((hcs c hc).symm.trans hbody)
    refine bind (runAll (fun id _ hq => evaluateBusy _ id hq) hq rfl hkinds) fun b q hb hq => ?_
    exact of_modify (hq.body (hb ▸ hbody))
  · exact of_modify (hq.wait hcs)

theorem realizeChecked (name : String) (h : l.Fits p) :
    Agrees l (fun _ => True) (Checked.realizeChecked l.taken name) (ConfigM.realizeChecked name) p := by
  refine bind (realize name h) fun b q _ hq => ?_
  cases b.missingInput with
  | some property => exact of_throw hq _
  | none => exact of_pure hq trivial

theorem finalize (h : l.Fits p) : Agrees l (fun _ => True) (Checked.finalize l.taken) ConfigM.finalize p := by
  refine .get_bind (bind (.forM (fun name q hq => realizeChecked name hq) _ h) fun _ q _ hq => .get_bind ?_)
  cases q.tasks.graph.topologicalSort with
  | ok order => exact of_pure hq trivial
  | error name => exact of_throw hq _

end Agrees

/-! ## Every project -/

/-- A body of the type is made of what bodies of the type hold. -/
theorem TaskBody.exists_eq_of {body : TaskBody} {kind : TaskKind} (h : body.kind = kind) :
    ∃ x : kind.Content, body = .of kind x := by
  subst h
  cases body with
  | javaCompile t => exact ⟨t, rfl⟩
  | processResources t => exact ⟨t, rfl⟩
  | classes t => exact ⟨t, rfl⟩
  | resolveMainClassName t => exact ⟨t, rfl⟩
  | processAot t => exact ⟨t, rfl⟩
  | processTestAot t => exact ⟨t, rfl⟩
  | custom type t => exact ⟨t, rfl⟩

namespace Ledger.Fits

variable {l : Ledger} {p q : Project} {name : String} {handle : TaskHandle}

theorem start (hp : p.tasks.entries = []) (ht : ∀ id task, ¬ p.Takes id task) : Ledger.Fits {} p := by
  have hfind : ∀ name, p.tasks.find? name = none := by
    intro name
    rw [Tasks.find?, hp, List.find?_nil]
  refine ⟨fun name => ?_, fun hu => ?_, fun _ hm => absurd hm List.not_mem_nil, fun hid => absurd hid (ht _ _)⟩
  · rw [hfind]
    rfl
  · rw [hfind] at hu
    cases hu

theorem register {kind : TaskKind} {content : kind.Content} {cs : List Configurator} (h : l.Fits p)
    (hcs : ∀ c ∈ cs, c.kind = kind) (hok : ConfigM.registerTask name (.of kind content) cs p = .ok ⟨⟩ q) :
    Ledger.Fits { l with registered := (name, kind) :: l.registered, handles := ⟨name, kind⟩ :: l.handles } q := by
  obtain ⟨r, hr, rfl⟩ := ConfigM.onTasks_eq_ok hok
  have hnone : l.kindOf name = none := by
    rw [← h.bodies name, Tasks.find?_eq_none_iff.mpr (Tasks.register_eq_ok hr).1]
    rfl
  -- what the ledger says of the tasks that were there is as before
  have hself : List.lookup name ((name, kind) :: l.registered) = some kind := List.lookup_cons_self
  have hother : ∀ other, other ≠ name → List.lookup other ((name, kind) :: l.registered) = l.kindOf other := by
    intro other hne
    rw [List.lookup_cons, beq_eq_false_iff_ne.mpr hne]
    rfl
  have hkept : ∀ {other k}, l.kindOf other = some k → List.lookup other ((name, kind) :: l.registered) = some k := by
    intro other k hk
    have hne : other ≠ name := by
      rintro rfl
      rw [hnone] at hk
      cases hk
    rw [hother other hne, hk]
  refine ⟨fun other => ?_, fun {other t} ht => ?_, fun handle hm => ?_, fun hid => ?_⟩
  · by_cases he : other = name
    · subst he
      show (r.find? other).map _ = List.lookup other _
      rw [Tasks.find?_register_self hr, hself]
      exact congrArg some (TaskBody.kind_of kind content)
    · show (r.find? other).map _ = List.lookup other _
      rw [Tasks.find?_of_register_of_ne hr he, hother other he]
      exact h.bodies other
  · change r.find? other = some t at ht
    by_cases he : other = name
    · subst he
      rw [Tasks.find?_register_self hr] at ht
      cases ht
      exact fun c hc => hcs c hc ▸ hself
    · rw [Tasks.find?_of_register_of_ne hr he] at ht
      exact fun c hc => hkept (h.pending ht c hc)
  · rcases List.mem_cons.mp hm with rfl | hm
    · exact hself
    · exact hkept (h.handles handle hm)
  · obtain ⟨k, htaken, hk⟩ := h.taken hid
    exact ⟨k, htaken, hkept hk⟩

theorem named (h : l.Fits p) (hn : p.tasks.named handle.kind handle.name = .ok handle) :
    Ledger.Fits { l with handles := handle :: l.handles } p := by
  obtain ⟨t, ht, hkind⟩ := Tasks.named_eq_ok_iff.mp hn
  refine ⟨h.bodies, h.pending, fun other hm => ?_, h.taken⟩
  rcases List.mem_cons.mp hm with rfl | hm
  · exact hkind ▸ h.kind_eq ht
  · exact h.handles other hm

theorem flatMap (h : l.Fits p) (hm : handle ∈ l.handles) (read : TaskBody → Reading) :
    Ledger.Fits { l with taken := (p.nextProvider, handle) :: l.taken }
      { p with providers := p.providers ++ [{ thunk := .fromTask handle.name read }] } := by
  refine ⟨h.bodies, h.pending, h.handles, fun {id task} hid => ?_⟩
  obtain ⟨cell, read', hcell, hthunk⟩ := hid
  rcases Nat.lt_trichotomy id p.providers.length with hlt | heq | hgt
  · rw [List.getElem?_append_left hlt] at hcell
    obtain ⟨kind, htaken, hkind⟩ := h.taken ⟨cell, read', hcell, hthunk⟩
    refine ⟨kind, ?_, hkind⟩
    have hnew : (id == p.nextProvider) = false := beq_eq_false_iff_ne.mpr (Nat.ne_of_lt hlt)
    rw [List.lookup_cons, hnew]
    exact htaken
  · subst heq
    rw [List.getElem?_concat_length] at hcell
    cases hcell
    cases hthunk
    exact ⟨handle.kind, List.lookup_cons_self, h.handles handle hm⟩
  · rw [List.getElem?_append_right (Nat.le_of_lt hgt), List.getElem?_eq_none (Nat.le_sub_of_add_le' hgt)] at hcell
    cases hcell

end Ledger.Fits

namespace Handled

variable {p : Project} {l : Ledger}

theorem fits (h : Handled p l) : l.Fits p := by
  induction h with
  | start hp ht => exact .start hp ht
  | register kind content _ hcs hok ih => exact ih.register hcs hok
  | named _ hn ih => exact ih.named hn
  | configure _ hm hcs ih => exact (Agrees.configure ih fun c hc => hcs c hc ▸ ih.handles _ hm).fits
  | realize name _ ih => exact (Agrees.realize name ih).fits
  | flatMap read _ hm ih => exact ih.flatMap hm read
  | evaluate id _ ih => exact (Agrees.evaluateBusy [] id ih).fits
  | finalize _ ih => exact (Agrees.finalize ih).fits
  | elsewhere _ he ht ih => exact ih.of_takes he ht

/-- The task of every handle that was ever given out has a body of the handle's type, and so will a task that is realized
    through it; whatever is configured, realized, computed or finalized, no configurator is skipped and no body is of
    another type than it is read with. A handle is given out of a task exactly for the type it was registered with. -/
theorem type_checked_once (h : Handled p l) :
    (∀ handle ∈ l.handles,
      (∃ t x, p.tasks.find? handle.name = some t ∧ t.body = .of handle.kind x) ∧
      Checked.realizeThrough l.taken handle p = ConfigM.realize handle.name p ∧
      ∀ cs : List Configurator, (∀ c ∈ cs, c.kind = handle.kind) →
        Checked.configure l.taken handle.name cs p = ConfigM.configure handle.name cs p) ∧
    (∀ name, Checked.realize l.taken name p = ConfigM.realize name p) ∧
    (∀ id, Checked.evaluate l.taken id p = ConfigM.evaluate id p) ∧
    Checked.finalize l.taken p = ConfigM.finalize p ∧
    ∀ kind name, p.tasks.named kind name =
      match l.registered.lookup name with
      | none => .error (.taskNotFound name)
      | some found => if found = kind then .ok ⟨name, kind⟩ else .error (.taskTypeMismatch name kind found) := by
  have hfits := h.fits
  refine ⟨fun handle hm => ⟨?_, ?_, fun cs hcs => ?_⟩, fun name => (Agrees.realize name hfits).eq,
    fun id => (Agrees.evaluateBusy [] id hfits).eq, (Agrees.finalize hfits).eq, fun kind name => ?_⟩
  · have hbody := hfits.bodies handle.name
    rw [hfits.handles handle hm] at hbody
    obtain ⟨t, ht, hkind⟩ := Option.map_eq_some_iff.mp hbody
    obtain ⟨x, hx⟩ := TaskBody.exists_eq_of hkind
    exact ⟨t, x, ht, hx⟩
  · exact (Agrees.realizeThrough hfits (hfits.handles handle hm)).eq
  · exact (Agrees.configure hfits fun c hc => hcs c hc ▸ hfits.handles handle hm).eq
  · show _ = match l.kindOf name with
      | none => _
      | some found => _
    rw [← hfits.bodies name, Tasks.named, Tasks.get]
    cases p.tasks.find? name with
    | none => rfl
    | some t => rfl

/-- A task that is looked up again, given one more configurator, and realized for a lazy value taken from it. -/
theorem type_checked_once_for_a_stamp :
    let type : CustomType := ⟨"Stamp", false⟩
    let handle : TaskHandle := ⟨"stamp", .custom type⟩
    ∃ p l, Handled p l ∧ l.handles = [handle, handle] ∧ l.taken = [(0, handle)] ∧
      (∃ t, p.tasks.find? "stamp" = some t ∧ t.body = .custom type { log := ["first", "second"] }) ∧
      Checked.evaluate l.taken 0 p = ConfigM.evaluate 0 p ∧
      p.tasks.named .classes "stamp" = .error (.taskTypeMismatch "stamp" .classes (.custom type)) ∧
      p.tasks.named .classes "other" = .error (.taskNotFound "other") := by
  intro type handle
  let note (text : String) (t : CustomTask) : CustomTask := { t with log := t.log ++ [text] }
  have hstart : Handled default {} := start rfl fun id task hid => by
    obtain ⟨cell, read, hcell, -⟩ := hid
    cases hcell
  have hregister := @register _ _ _ "stamp" [.of (.custom type) (note "first")] (.custom type) ({} : CustomTask) hstart
    (by decide) rfl
  have hnamed := @named _ _ handle hregister rfl
  have hconfigure := @configure _ _ handle [.of (.custom type) (note "second")] hnamed (by decide) (by decide)
  have hflatMap := @flatMap _ _ handle (fun _ => .text "1.0") hconfigure (by decide)
  have hevaluate := evaluate 0 hflatMap
  obtain ⟨-, -, hcomputed, -, hlookup⟩ := Handled.type_checked_once hevaluate
  exact ⟨_, _, hevaluate, rfl, rfl, ⟨_, rfl, rfl⟩, hcomputed 0, hlookup .classes "stamp", hlookup .classes "other"⟩

end Handled

end BuildGraph

/-
  BuildGraph.Proofs.Task.Submission: what becomes of the configurators submitted to a task.

  A handle of a task vouches for the type of the task's body, so whoever configures a task through one gives a
  function of what such a body holds (`TaskKind.Content`). `Submitted p history` says that the tasks of `p` came
  about by registering tasks, configuring them through handles, realizing them, computing lazy values taken from
  them, and finalizing, in any order; the history has what was submitted, in order.

  - `Followed`: at any time, a realized task has had all that was submitted to it applied, in order and once,
    and any other task has it waiting.
  - `Submitted.body_eq_fold`: so what a realized task ends up with does not depend on when it is realized.
-/

import BuildGraph.Proofs.Project.Evaluation
import BuildGraph.Proofs.Task.Realization

namespace BuildGraph

open Operation

/-! ## Bodies and changes of one type -/

/-- What a body of the type holds. -/
def TaskKind.Content : TaskKind → Type
  | .javaCompile => JavaCompile
  | .processResources => ProcessResources
  | .classes => Classes
  | .resolveMainClassName => ResolveMainClassName
  | .processAot => ProcessAot
  | .processTestAot => ProcessTestAot
  | .custom _ => CustomTask

def TaskBody.of : (kind : TaskKind) → kind.Content → TaskBody
  | .javaCompile, t => .javaCompile t
  | .processResources, t => .processResources t
  | .classes, t => .classes t
  | .resolveMainClassName, t => .resolveMainClassName t
  | .processAot, t => .processAot t
  | .processTestAot, t => .processTestAot t
  | .custom type, t => .custom type t

def Change.of : (kind : TaskKind) → (kind.Content → kind.Content) → Change
  | .javaCompile, f => .javaCompile f
  | .processResources, f => .processResources f
  | .classes, f => .classes f
  | .resolveMainClassName, f => .resolveMainClassName f
  | .processAot, f => .processAot f
  | .processTestAot, f => .processTestAot f
  | .custom type, f => .custom type f

@[simp] theorem TaskBody.kind_of (kind : TaskKind) (x : kind.Content) : (of kind x).kind = kind := by cases kind <;> rfl

/-- A change is made to every body of its type. -/
theorem Change.apply_of (kind : TaskKind) (f : kind.Content → kind.Content) (x : kind.Content) :
    (Change.of kind f).apply (.of kind x) = .of kind (f x) := by
  cases kind with
  | custom type => exact congrArg (TaskBody.custom type) (if_pos rfl)
  | _ => rfl

/-- The configurator that makes a change of the given type. -/
def Configurator.of (kind : TaskKind) (f : kind.Content → kind.Content) : Configurator := .change (.of kind f)

section

variable {kind : TaskKind}

theorem Configurator.asksNothing_of (fs : List (kind.Content → kind.Content)) :
    ∀ c ∈ fs.map (Configurator.of kind), c.AsksNothing := by
  intro c hc
  obtain ⟨f, -, rfl⟩ := List.mem_map.mp hc
  trivial

theorem Configurator.foldl_effect_of (p : Project) (fs : List (kind.Content → kind.Content)) (x : kind.Content) :
    (fs.map (Configurator.of kind)).foldl (Configurator.effect p) (.of kind x) =
      .of kind (fs.foldl (fun x f => f x) x) := by
  induction fs generalizing x with
  | nil => rfl
  | cons f fs ih =>
    have hf : Configurator.effect p (.of kind x) (.of kind f) = .of kind (f x) := Change.apply_of kind f x
    rw [List.map_cons, List.foldl_cons, List.foldl_cons, hf, ih]

end

/-! ## Histories -/

/-- A configurator that was submitted: with the registration of its task, or later through a handle. -/
inductive Submission where
  | register (task : String) (kind : TaskKind) (content : kind.Content) (f : kind.Content → kind.Content)
  | configure (handle : TaskHandle) (f : handle.kind.Content → handle.kind.Content)

namespace Submission

/-- The task the configurator was submitted to. -/
def task : Submission → String
  | .register task .. => task
  | .configure handle _ => handle.name

/-- What was submitted to the task called `name`, in order. -/
def about (name : String) (history : List Submission) : List Submission := history.filter (·.task == name)

theorem about_append_self (history : List Submission) (s : Submission) :
    about s.task (history ++ [s]) = about s.task history ++ [s] := by simp [about]

theorem about_append_of_ne {name : String} {s : Submission} (h : s.task ≠ name) (history : List Submission) :
    about name (history ++ [s]) = about name history := by simp [about, h]

theorem configure_injective (handle : TaskHandle) : Function.Injective (Submission.configure handle) := by
  intro f g h
  cases h
  rfl

end Submission

open Submission

/-- The tasks of a project, reached by registering tasks and configuring them through handles, with configurators
    that are functions of their own task's body, by realizing them, by computing lazy values, which may be taken from
    tasks, and by finalizing; and what was submitted on the way, in order. -/
inductive Submitted : Project → List Submission → Prop
  | start {p : Project} : p.tasks.entries = [] → Submitted p []
  | register {p q : Project} {history : List Submission} {name : String} {kind : TaskKind} (content : kind.Content)
      (f : kind.Content → kind.Content) :
    Submitted p history → ConfigM.registerTask name (.of kind content) [.of kind f] p = .ok ⟨⟩ q →
      Submitted q (history ++ [.register name kind content f])
  | configure {p : Project} {history : List Submission} {handle : TaskHandle}
      (f : handle.kind.Content → handle.kind.Content) :
    Submitted p history → p.tasks.named handle.kind handle.name = .ok handle →
      Submitted (after (ConfigM.configure handle.name [.of handle.kind f]) p) (history ++ [.configure handle f])
  | realize {p : Project} {history : List Submission} (name : String) :
    Submitted p history → Submitted (after (ConfigM.realize name) p) history
  | evaluate {p : Project} {history : List Submission} (id : ProviderId) :
    Submitted p history → Submitted (after (ConfigM.evaluate id) p) history
  | finalize {p : Project} {history : List Submission} :
    Submitted p history → Submitted (after ConfigM.finalize p) history
  | elsewhere {p q : Project} {history : List Submission} :
    Submitted p history → q.tasks.entries = p.tasks.entries → Submitted q history

/-- The task is as it has to be if the history has what was submitted to it: its registration first, and then what was
    submitted through handles of its type. -/
def Task.Follows (t : Task) (name : String) (history : List Submission) : Prop :=
  ∃ (kind : TaskKind) (content : kind.Content) (f : kind.Content → kind.Content) (fs : List (kind.Content → kind.Content)),
    history = .register name kind content f :: fs.map (.configure ⟨name, kind⟩) ∧
    (t.realized = true → t.pending = [] ∧ t.body = .of kind ((f :: fs).foldl (fun x g => g x) content)) ∧
    (t.realized = false → t.body = .of kind content ∧ t.pending = (f :: fs).map (.of kind))

/-- Every task follows what was submitted to it, and nothing was submitted to any that is not there. -/
structure Followed (p : Project) (history : List Submission) : Prop where
  task : ∀ {name : String} {t : Task}, p.tasks.find? name = some t → t.Follows name (about name history)
  missing : ∀ {name : String}, p.tasks.find? name = none → about name history = []

namespace Task.Follows

variable {t : Task} {name : String} {history : List Submission} {p : Project}

theorem asksNothing (h : t.Follows name history) (hr : t.realized = false) : ∀ c ∈ t.pending, c.AsksNothing := by
  obtain ⟨kind, content, f, fs, -, -, hwait⟩ := h
  rw [(hwait hr).2]
  exact Configurator.asksNothing_of _

/-- A task that has all that waited for it applied follows the same history. -/
theorem realize (h : t.Follows name history) (hr : t.realized = false) :
    Follows { t with realized := true, pending := [], body := t.realizedBody p } name history := by
  obtain ⟨kind, content, f, fs, hhistory, -, hwait⟩ := h
  obtain ⟨hbody, hpending⟩ := hwait hr
  refine ⟨kind, content, f, fs, hhistory, fun _ => ⟨rfl, ?_⟩, fun hf => absurd hf (by simp)⟩
  show t.pending.foldl (Configurator.effect p) t.body = _
  rw [hbody, hpending, Configurator.foldl_effect_of]

/-- The body has the type the task was registered with. -/
theorem kind_eq (h : t.Follows name history) :
    ∃ content f, ∃ fs : List (t.body.kind.Content → t.body.kind.Content),
      history = .register name t.body.kind content f :: fs.map (.configure ⟨name, t.body.kind⟩) := by
  obtain ⟨kind, content, f, fs, hhistory, hdone, hwait⟩ := h
  have hkind : t.body.kind = kind := by
    cases hr : t.realized with
    | true => rw [(hdone hr).2, TaskBody.kind_of]
    | false => rw [(hwait hr).1, TaskBody.kind_of]
  subst hkind
  exact ⟨content, f, fs, hhistory⟩

variable {handle : TaskHandle} {g : handle.kind.Content → handle.kind.Content}

/-- One more configurator is applied to a realized task. -/
theorem apply (h : t.Follows handle.name history) (hk : t.body.kind = handle.kind) (hr : t.realized = true) :
    Follows { t with body := [Configurator.of handle.kind g].foldl (Configurator.effect p) t.body } handle.name
      (history ++ [.configure handle g]) := by
  obtain ⟨kind, content, f, fs, hhistory, hdone, -⟩ := h
  obtain ⟨hpending, hbody⟩ := hdone hr
  obtain ⟨name, handleKind⟩ := handle
  rw [hbody, TaskBody.kind_of] at hk
  subst hk
  refine ⟨kind, content, f, fs ++ [g], ?_, fun _ => ⟨hpending, ?_⟩, fun hf => absurd (hr.symm.trans hf) (by simp)⟩
  · rw [hhistory, List.map_append]
    rfl
  · show [Configurator.of kind g].foldl (Configurator.effect p) t.body = _
    rw [hbody, show [Configurator.of kind g] = [g].map (Configurator.of kind) from rfl, Configurator.foldl_effect_of,
      ← List.cons_append, List.foldl_append]

/-- One more configurator waits for a task that is not realized. -/
theorem wait (h : t.Follows handle.name history) (hk : t.body.kind = handle.kind) (hr : t.realized = false) :
    Follows { t with pending := t.pending ++ [Configurator.of handle.kind g] } handle.name
      (history ++ [.configure handle g]) := by
  obtain ⟨kind, content, f, fs, hhistory, -, hwait⟩ := h
  obtain ⟨hbody, hpending⟩ := hwait hr
  obtain ⟨name, handleKind⟩ := handle
  rw [hbody, TaskBody.kind_of] at hk
  subst hk
  refine ⟨kind, content, f, fs ++ [g], ?_, fun hf => absurd (hr.symm.trans hf) (by simp), fun _ => ⟨hbody, ?_⟩⟩
  · rw [hhistory, List.map_append]
    rfl
  · rw [hpending, ← List.cons_append, List.map_append]
    rfl

end Task.Follows

/-! ## What each step does -/

namespace Followed

variable {p q : Project} {history : List Submission} {name : String} {t : Task}

theorem of_find? (h : Followed p history) (he : q.tasks.find? = p.tasks.find?) : Followed q history :=
  ⟨fun ht => h.task (he ▸ ht), fun ht => h.missing (he ▸ ht)⟩

/-- If one task is replaced, or is new, it alone has to follow what was submitted to it. -/
theorem replace {history' : List Submission} (h : Followed p history) (ht : q.tasks.find? name = some t)
    (hfollows : t.Follows name (about name history'))
    (hfind : ∀ other, other ≠ name → q.tasks.find? other = p.tasks.find? other)
    (hothers : ∀ other, other ≠ name → about other history' = about other history) : Followed q history' := by
  constructor
  · intro other u hu
    by_cases he : other = name
    · subst he
      rw [ht] at hu
      cases hu
      exact hfollows
    · rw [hfind other he] at hu
      exact hothers other he ▸ h.task hu
  · intro other hu
    by_cases he : other = name
    · subst he
      rw [ht] at hu
      cases hu
    · rw [hfind other he] at hu
      exact hothers other he ▸ h.missing hu

theorem update {history' : List Submission} (h : Followed p history) (ht : p.tasks.find? name = some t)
    {f : Task → Task} (hf : ∀ u, (f u).name = u.name) (hfollows : (f t).Follows name (about name history'))
    (hothers : ∀ other, other ≠ name → about other history' = about other history) :
    Followed { p with tasks := p.tasks.update name f } history' := by
  refine h.replace (t := f t) ?_ hfollows (fun other hne => ?_) hothers
  · show (p.tasks.update name f).find? name = some (f t)
    rw [Tasks.find?_update hf, if_pos rfl, ht]
    rfl
  · show (p.tasks.update name f).find? other = _
    rw [Tasks.find?_update hf, if_neg hne]

theorem register {kind : TaskKind} (h : Followed p history) (content : kind.Content) (f : kind.Content → kind.Content)
    (hok : ConfigM.registerTask name (.of kind content) [.of kind f] p = .ok ⟨⟩ q) :
    Followed q (history ++ [.register name kind content f]) := by
  cases hr : p.tasks.register name (.of kind content) [.of kind f] with
  | error e =>
    rw [ConfigM.registerTask_error hr] at hok
    cases hok
  | ok r =>
    rw [ConfigM.registerTask_ok hr] at hok
    cases hok
    have hnew := Tasks.find?_eq_none_iff.mpr (Tasks.register_eq_ok hr).1
    have hself := about_append_self history (.register name kind content f)
    refine h.replace (Tasks.find?_register_self hr) ?_ (fun other hne => Tasks.find?_of_register_of_ne hr hne)
      fun other hne => about_append_of_ne (s := .register name kind content f) hne.symm history
    refine ⟨kind, content, f, [], ?_, fun hf => absurd hf (by simp), fun _ => ⟨rfl, rfl⟩⟩
    show about (Submission.task (.register name kind content f)) _ = _
    rw [hself]
    show about name history ++ _ = _
    rw [h.missing hnew]
    rfl

theorem configure {handle : TaskHandle} (h : Followed p history)
    (hnamed : p.tasks.named handle.kind handle.name = .ok handle) (f : handle.kind.Content → handle.kind.Content) :
    Followed (after (ConfigM.configure handle.name [.of handle.kind f]) p) (history ++ [.configure handle f]) := by
  obtain ⟨t, ht, hk⟩ := Tasks.named_eq_ok_iff.mp hnamed
  have hfollows := h.task ht
  have hself := about_append_self history (.configure handle f)
  have hothers : ∀ other, other ≠ handle.name → about other (history ++ [.configure handle f]) = about other history :=
    fun other hne => about_append_of_ne (s := .configure handle f) hne.symm history
  have hasks : ∀ c ∈ [Configurator.of handle.kind f], c.AsksNothing := Configurator.asksNothing_of [f]
  cases hr : t.realized with
  | true =>
    rw [after_of_ok (ConfigM.configure_of_realized ht hr hasks)]
    refine h.update ht (fun _ => rfl) ?_ hothers
    exact hself ▸ hfollows.apply hk hr
  | false =>
    rw [after_of_ok (ConfigM.configure_of_unrealized ht hr)]
    refine h.update ht (fun _ => rfl) ?_ hothers
    exact hself ▸ hfollows.wait hk hr

/-- A task is realized in one step, whatever lazy values would be computed by: no configurator asks for one. -/
theorem realizeWith (h : Followed p history) (ask : ProviderId → ConfigM String) (name : String) :
    Followed (after (ConfigM.realizeWith ask name) p) history := by
  cases ht : p.tasks.find? name with
  | none =>
    rw [after_of_error (ConfigM.realizeWith_of_not_mem (Tasks.find?_eq_none_iff.mp ht))]
    exact h
  | some t =>
    cases hr : t.realized with
    | true =>
      rw [after_of_ok (ConfigM.realizeWith_of_realized ht hr)]
      exact h
    | false =>
      have hfollows := h.task ht
      rw [after_of_ok (ConfigM.realizeWith_of_unrealized ht hr (hfollows.asksNothing hr))]
      exact h.update ht (fun _ => rfl) (hfollows.realize hr) fun _ _ => rfl

theorem evaluating (history : List Submission) : Evaluating (Preserves (Followed · history)) where
  toFrame := preserves_frame _
  realizeWith := fun {ask} _ name _ h => h.realizeWith ask name
  resolve := fun _ _ _ h => h.of_find? rfl

end Followed

namespace Submitted

variable {p q : Project} {history history' : List Submission} {name : String} {t u : Task}

theorem followed (h : Submitted p history) : Followed p history := by
  induction h with
  | start hp =>
    refine ⟨fun ht => ?_, fun _ => rfl⟩
    simp [Tasks.find?, hp] at ht
  | register content f _ hok ih => exact ih.register content f hok
  | configure f _ hnamed ih => exact ih.configure hnamed f
  | realize name _ ih => exact (Followed.evaluating _).realize name _ ih
  | evaluate id _ ih => exact (Followed.evaluating _).evaluate id _ ih
  | finalize _ ih => exact (Followed.evaluating _).finalize _ ih
  | elsewhere _ he ih =>
    refine ih.of_find? ?_
    funext name
    rw [Tasks.find?, Tasks.find?, he]

/-- There are handles of each task for the type it was registered with, and for no other; and once there is one, there
    always is. -/
theorem named_iff (h : Submitted p history) {handle : TaskHandle} :
    p.tasks.named handle.kind handle.name = .ok handle ↔
      ∃ content f, .register handle.name handle.kind content f ∈ history := by
  rw [Tasks.named_eq_ok_iff]
  obtain ⟨name, kind⟩ := handle
  constructor
  · rintro ⟨t, ht, rfl⟩
    obtain ⟨content, f, fs, hhistory⟩ := (h.followed.task ht).kind_eq
    exact ⟨content, f, (List.mem_filter.mp (hhistory ▸ List.mem_cons_self ..)).1⟩
  · rintro ⟨content, f, hmem⟩
    have habout : .register name kind content f ∈ about name history := List.mem_filter.mpr ⟨hmem, by simp [task]⟩
    cases ht : p.tasks.find? name with
    | none => simp [h.followed.missing ht] at habout
    | some t =>
      obtain ⟨content', f', fs, hhistory⟩ := (h.followed.task ht).kind_eq
      rw [hhistory, List.mem_cons] at habout
      refine ⟨t, rfl, ?_⟩
      rcases habout with he | he
      · cases he
        rfl
      · obtain ⟨g, -, hg⟩ := List.mem_map.mp he
        cases hg

/-- Every task holds its first content with all that was submitted to it applied, in order and once, if it is realized,
    and its first content, with all that was submitted to it waiting, if it is not; so it always ends up with the same
    body. All that was submitted to it is for bodies of its type. Two tasks with the same submissions have the same
    bodies once they are realized, whenever that was. -/
theorem body_eq_fold (h : Submitted p history) (ht : p.tasks.find? name = some t) :
    (∃ (kind : TaskKind) (content : kind.Content) (f : kind.Content → kind.Content)
        (fs : List (kind.Content → kind.Content)),
      about name history = .register name kind content f :: fs.map (.configure ⟨name, kind⟩) ∧
        (t.realized = true → t.pending = [] ∧ t.body = .of kind ((f :: fs).foldl (fun x g => g x) content)) ∧
        (t.realized = false → t.body = .of kind content ∧ t.pending = (f :: fs).map (.of kind)) ∧
        ∃ q, ConfigM.realize name p = .ok (.of kind ((f :: fs).foldl (fun x g => g x) content)) q) ∧
      ∀ q history' u, Submitted q history' → q.tasks.find? name = some u → about name history' = about name history →
        t.realized = true → u.realized = true → u.body = t.body := by
  obtain ⟨kind, content, f, fs, hhistory, hdone, hwait⟩ := h.followed.task ht
  refine ⟨⟨kind, content, f, fs, hhistory, hdone, hwait, ?_⟩, ?_⟩
  · cases hr : t.realized with
    | true => exact ⟨p, (hdone hr).2 ▸ ConfigM.realizeWith_of_realized ht hr⟩
    | false =>
      have hbody : t.realizedBody p = .of kind ((f :: fs).foldl (fun x g => g x) content) := by
        rw [Task.realizedBody, (hwait hr).1, (hwait hr).2, Configurator.foldl_effect_of]
      have hasks : ∀ c ∈ t.pending, c.AsksNothing := (h.followed.task ht).asksNothing hr
      exact ⟨_, hbody ▸ ConfigM.realize_of_unrealized ht hr hasks⟩
  · intro q history' u h' hu hsame hr hr'
    obtain ⟨kind', content', f', fs', hhistory', hdone', -⟩ := h'.followed.task hu
    obtain ⟨hhead, htail⟩ := List.cons.inj (hhistory'.symm.trans (hsame.trans hhistory))
    cases hhead
    have hfs : fs' = fs := List.map_injective_iff.mpr (configure_injective ⟨name, kind⟩) htail
    rw [(hdone' hr').2, (hdone hr).2, hfs]

/-- A task realized before its second configurator is submitted, and one realized after that by a value taken from it. -/
theorem body_eq_fold_realized_early_or_late :
    let type : CustomType := ⟨"Generate", false⟩
    let handle : TaskHandle := ⟨"generate", .custom type⟩
    let note (text : String) (t : CustomTask) : CustomTask := { t with log := t.log ++ [text] }
    let history : List Submission :=
      [.register "generate" (.custom type) ({} : CustomTask) (note "first"), .configure handle (note "second")]
    let body : TaskBody := .custom type { log := ["first", "second"] }
    let value : Provider := { thunk := .fromTask "generate" fun _ => .text "taken" }
    let early : Project := { (default : Project) with
      tasks := { entries := [{ name := "generate", body := body, realized := true }] } }
    let late : Project := { early with providers := [{ value with value := some "taken", runs := 1 }] }
    Submitted early history ∧ Submitted late history ∧
      ∃ t u, early.tasks.find? "generate" = some t ∧ late.tasks.find? "generate" = some u ∧ u.body = t.body := by
  intro type handle note history body value early late
  have hregister : Submitted { (default : Project) with tasks := { entries :=
      [{ name := "generate", body := .custom type {}, pending := [.of (.custom type) (note "first")] }] } } [history[0]] :=
    @register default _ _ "generate" (.custom type) _ (note "first") (start rfl) rfl
  have hearly : Submitted early history := @configure _ _ handle (note "second") (realize "generate" hregister) rfl
  have hqueued : Submitted _ history := @configure _ _ handle (note "second") hregister rfl
  have hvalue : Submitted { (default : Project) with
      tasks := { entries := [{ name := "generate", body := .custom type {}, pending :=
        [.of (.custom type) (note "first"), .of (.custom type) (note "second")] }] }
      providers := [value] } history := elsewhere hqueued rfl
  have hlate : Submitted late history := evaluate 0 hvalue
  have ht : early.tasks.find? "generate" = some { name := "generate", body := body, realized := true } := rfl
  exact ⟨hearly, hlate, _, _, ht, rfl, (body_eq_fold hearly ht).2 late history _ hlate rfl rfl rfl rfl⟩

end Submitted

end BuildGraph

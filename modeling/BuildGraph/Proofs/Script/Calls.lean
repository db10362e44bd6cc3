/-
  BuildGraph.Proofs.Script.Calls: how failures come out of calls.

  A step that contains others stands in the work as a layer, its answer at the bottom. A round replaces
  the work at the front. A failure takes away what stands above an attempt, or everything: a layer
  without attempts in it is left whole, or nothing of it is.

  - `Machine.next_layer`: so a layer stays while something is above it, or a failure takes all of it.
  - `Session.answers_of_isOk`: a call that is reported to have gone well comes to its answer.
-/

import BuildGraph.Proofs.Script.Completion

namespace BuildGraph

open History Machine

/-- A call goes well that has `rest` left to be done after it: no failure comes out of it, and after `n` rounds all
    it gave rise to is done, so that only its answer is to be given. -/
structure Machine.Answers (m : Machine) (reported : Bool) (rest : List Work) (n : Nat) : Prop where
  answer : (m.run n).work = .answer reported :: rest
  within : ∀ k ≤ n, rest.length < (m.run k).work.length

/-- A call that goes well from the next round on goes well. -/
theorem Machine.Answers.of_next {m : Machine} {reported : Bool} {rest : List Work} {n : Nat}
    (h : m.next.Answers reported rest n) (hwork : rest.length < m.work.length) : m.Answers reported rest (n + 1) := by
  refine ⟨h.answer, fun k hk => ?_⟩
  cases k with
  | zero => exact hwork
  | succ k => exact h.within k (Nat.le_of_succ_le_succ hk)

/-! ## What a failure leaves -/

/-- What is left after a failure: what follows an attempt under way, or nothing. -/
inductive Cut : List Work → List Work → Prop
  | nil : Cut [] []
  | attempted {reported : Bool} {left : List Work} : Cut (.attempted reported :: left) left
  | cons {w : Work} {rest left : List Work} : Cut rest left → Cut (w :: rest) left

namespace Cut

variable {left : List Work}

theorem length_le {rest : List Work} (h : Cut rest left) : left.length ≤ rest.length := by
  induction h with
  | nil => exact Nat.le_refl _
  | attempted => exact Nat.le_succ _
  | cons _ ih => exact Nat.le_succ_of_le ih

/-- A layer without attempts is left whole, or nothing of it is. -/
theorem layer {upper layer below : List Work} (h : Cut (upper ++ (layer ++ below)) left)
    (hlayer : ∀ reported, .attempted reported ∉ layer) :
    (∃ upper', upper' <:+ upper ∧ left = upper' ++ (layer ++ below)) ∨ left.length ≤ below.length := by
  induction upper with
  | nil =>
    refine .inr ?_
    induction layer with
    | nil => exact h.length_le
    | cons w layer ih =>
      cases h with
      | attempted => exact absurd (List.mem_cons_self ..) (hlayer _)
      | cons h => exact ih (fun reported hmem => hlayer reported (List.mem_cons_of_mem _ hmem)) h
  | cons w upper ih =>
    cases h with
    | attempted => exact .inl ⟨upper, List.suffix_cons .., rfl⟩
    | cons h =>
      refine (ih h).imp_left fun ⟨upper', hsuffix, hleft⟩ => ⟨upper', ?_, hleft⟩
      exact hsuffix.trans (List.suffix_cons ..)

end Cut

namespace Machine

theorem cut_recover {rest left : List Work} {reported : Bool} (h : recover rest = some (reported, left)) :
    Cut rest left := by
  induction rest with
  | nil => cases h
  | cons w rest ih =>
    cases w with
    | attempted r =>
      cases h
      exact .attempted
    | _ => exact .cons (ih h)

theorem cut_nil (rest : List Work) : Cut rest [] := by
  induction rest with
  | nil => exact .nil
  | cons w rest ih => exact .cons ih

theorem cut_fail (m : Machine) (e : ConfigError) (rest : List Work) : Cut rest (m.fail e rest).work := by
  unfold fail
  split
  · rename_i reported left hr
    rw [report_work]
    exact cut_recover hr
  · exact cut_nil rest

/-- A round fails in the action at the front, or not at all. -/
theorem next_fails (m : Machine) : failures m.happening = [] ∨ ∃ reported a rest e w,
    m.work = .step reported (.act a) :: rest ∧ m.happening = [.failed e] ∧
      m.next = { m with workspace := w }.fail e rest := by
  unfold next happening
  cases hwork : m.work with
  | nil => exact .inl rfl
  | cons w rest =>
    cases w with
    | step reported s =>
      cases s with
      | act a =>
        simp only [perform, act]
        cases a.run m.plugins m.workspace with
        | ok answer w => exact .inl rfl
        | error e w => exact .inr ⟨reported, a, rest, e, w, rfl, rfl, rfl⟩
      | apply id inner body =>
        refine .inl ?_
        dsimp only
        split <;> rfl
      | _ => exact .inl rfl
    | _ => exact .inl rfl

end Machine

/-! ## Layers -/

namespace Turn

variable {ps qs : Plugins} {ws vs : List Work} {happening : List Happening}

/-- The work at the front is replaced by what it gives rise to. Nothing releases a plugin that is applied already. -/
theorem replaces (id : PluginId) {w : Work} {rest : List Work} (ht : Turn ps (w :: rest) happening qs vs)
    (hok : failures happening = []) : ∃ new, vs = new ++ rest ∧ (id ∈ ps.applied → .release id ∉ new) := by
  cases ht with
  | acted => exact ⟨[], rfl, by simp⟩
  | failed => cases hok
  | appliedAgain => exact ⟨[.answer _], rfl, by simp⟩
  | @applied reported inner other body _ hother =>
    refine ⟨workOf inner body ++ [.release other, .answer reported], by simp, fun hid hmem => ?_⟩
    have heq : id = other := by simpa [workOf] using hmem
    exact hother (heq ▸ hid)
  | queued => exact ⟨[.answer _], rfl, by simp⟩
  | immediate => exact ⟨[.handler _, .answer _], rfl, by simp⟩
  | @attempt reported inner body => exact ⟨workOf inner body ++ [.attempted reported], by simp, by simp [workOf]⟩
  | started => exact ⟨workOf _ _, rfl, by simp [workOf]⟩
  | released => exact ⟨_, rfl, by simp⟩
  | answered => exact ⟨[], rfl, by simp⟩
  | attempted => exact ⟨[], rfl, by simp⟩

/-- A call that applies a plugin is answered after what it gives rise to. -/
theorem apply_inv {id : PluginId} {reported inner : Bool} {body : List Step} {rest : List Work}
    (ht : Turn ps (.step reported (.apply id inner body) :: rest) happening qs vs) :
    ∃ upper, vs = upper ++ .answer reported :: rest := by
  cases ht with
  | appliedAgain => exact ⟨[], rfl⟩
  | applied => exact ⟨workOf inner body ++ [.release id], by simp⟩

end Turn

/-- A layer without attempts stays in the work while there is something above it, or a failure takes all of it away. -/
theorem Machine.next_layer {m : Machine} {w : Work} {upper layer below : List Work} (id : PluginId)
    (h : m.work = w :: upper ++ (layer ++ below)) (hlayer : ∀ reported, .attempted reported ∉ layer) :
    (∃ upper', m.next.work = upper' ++ (layer ++ below) ∧
      (id ∈ m.plugins.applied → .release id ∉ upper → .release id ∉ upper')) ∨
    (m.next.work.length ≤ below.length ∧ failures m.happening ≠ []) := by
  rcases m.next_fails with hok | ⟨reported, a, rest, e, _, hwork, hhappening, hnext⟩
  · have ht := m.next_turn
    rw [h, List.cons_append] at ht
    obtain ⟨new, hnew, hrelease⟩ := ht.replaces id hok
    refine .inl ⟨new ++ upper, by rw [hnew, List.append_assoc], fun hid hupper hmem => ?_⟩
    exact (List.mem_append.mp hmem).elim (hrelease hid) hupper
  · obtain rfl : rest = upper ++ (layer ++ below) := (List.cons.inj (hwork.symm.trans h)).2
    have hcut : Cut (upper ++ (layer ++ below)) m.next.work := hnext ▸ cut_fail ..
    have hfailed : failures m.happening ≠ [] := by simp [hhappening, failures]
    refine (hcut.layer hlayer).imp (fun ⟨upper', hsuffix, hleft⟩ => ?_) fun hle => ⟨hle, hfailed⟩
    exact ⟨upper', hleft, fun _ hupper hmem => hupper (hsuffix.subset hmem)⟩

/-! ## Calls that are reported to have gone well -/

namespace Machine

theorem recover_answer (upper : List Work) (reported : Bool) : recover (upper ++ [.answer reported]) = none ∨
    ∃ r upper', recover (upper ++ [.answer reported]) = some (r, upper' ++ [.answer reported]) := by
  induction upper with
  | nil => exact .inl rfl
  | cons w upper ih =>
    cases w with
    | attempted r => exact .inr ⟨r, upper, rfl⟩
    | _ => exact ih

/-- The answer at the end of the work stays there, or the script has failed. -/
theorem next_answer {m : Machine} {w : Work} {upper : List Work} {reported : Bool}
    (hwork : m.work = w :: upper ++ [.answer reported]) :
    (∃ upper', m.next.work = upper' ++ [.answer reported]) ∨ (m.next.work = [] ∧ m.next.failure ≠ none) := by
  rcases m.next_fails with hok | ⟨_, _, rest, e, _, hfront, -, hnext⟩
  · have ht := m.next_turn
    rw [hwork, List.cons_append] at ht
    obtain ⟨new, hnew, -⟩ := ht.replaces "" hok
    exact .inl ⟨new ++ upper, by rw [hnew, List.append_assoc]⟩
  · obtain rfl : rest = upper ++ [.answer reported] := (List.cons.inj (hfront.symm.trans hwork)).2
    rw [hnext, fail]
    rcases recover_answer upper reported with hnone | ⟨r, upper', hsome⟩
    · rw [hnone]
      exact .inr ⟨rfl, Option.some_ne_none e⟩
    · rw [hsome]
      exact .inl ⟨upper', report_work ..⟩

/-- If the script does not fail, the answer at the end of the work is given. -/
theorem answers_of_finish {m : Machine} {upper : List Work} {reported : Bool}
    (hwork : m.work = upper ++ [.answer reported]) (hok : m.finish.failure = none) : ∃ n, m.Answers reported [] n := by
  induction hweight : m.weight using Nat.strongRecOn generalizing m upper with
  | ind weight ih =>
    have hnonempty : m.work ≠ [] := by simp [hwork]
    cases upper with
    | nil => exact ⟨0, hwork, fun k hk => by simp [Nat.le_zero.mp hk, run, hwork]⟩
    | cons w upper =>
      rw [← finish_next hnonempty] at hok
      rcases next_answer hwork with ⟨upper', hnext⟩ | ⟨hnext, hfailed⟩
      · obtain ⟨n, hanswers⟩ := ih _ (hweight ▸ weight_next_lt m hnonempty) hnext hok rfl
        exact ⟨n + 1, hanswers.of_next (List.length_pos_iff.mpr hnonempty)⟩
      · rw [finish_of_work_nil hnext] at hok
        exact absurd hok hfailed

end Machine

/-- A call that is reported to have gone well answers. -/
theorem Session.answers_of_isOk {s : Session} {id : PluginId} {inner : Bool} {body : List Step}
    (hok : (s.perform (.apply id inner body)).1.result.isOk = true) :
    ∃ n, (s.machine (.apply id inner body)).Answers false [] n := by
  have hnonempty : (s.machine (.apply id inner body)).work ≠ [] := by simp [machine]
  obtain ⟨upper, hnext⟩ := (s.machine (.apply id inner body)).next_turn.apply_inv
  have hfinish := failure_eq_none hok
  rw [← finish_next hnonempty] at hfinish
  obtain ⟨n, hanswers⟩ := answers_of_finish hnext hfinish
  exact ⟨n + 1, hanswers.of_next (List.length_pos_iff.mpr hnonempty)⟩

end BuildGraph

/-
  BuildGraph.Proofs.Project.Evaluation: what realizing tasks and computing lazy values may change.

  However these go, all they do to a project is to mark a task realized, to give it a new body, and
  to keep the value of a lazy value. So they keep every relation that these three keep
  (`Realizing`). A relation that does not hold while a task is between mark and body is kept if it is
  kept by a task's realization as a whole (`Evaluating`). Apart from lazy values, realizing a task touches this task
  alone (`ConfigM.keeps_realizeWith`), and so does configuring it (`Evaluating.configure`).
-/

import BuildGraph.Project.Evaluation
import BuildGraph.Proofs.Project.Basic

namespace BuildGraph

open Operation

/-- A relation between projects that is kept when a task is realized, if it is kept by what computes lazy values. -/
structure Marking (R : Project → Project → Prop) : Prop extends Frame R where
  mark : ∀ p name, R p { p with tasks := p.tasks.update name fun t => { t with realized := true, pending := [] } }
  body : ∀ p name body, R p { p with tasks := p.tasks.update name fun t => { t with body := body } }

/-- A relation between projects that evaluation keeps. -/
structure Realizing (R : Project → Project → Prop) : Prop extends Marking R where
  resolve : ∀ p id value, R p
    { p with providers := p.providers.modify id fun c => { c with value := some value, runs := c.runs + 1 } }

/-- A relation between projects that evaluation keeps, the realization of a task taken as one step. -/
structure Evaluating (R : Project → Project → Prop) : Prop extends Frame R where
  realizeWith : ∀ {ask : ProviderId → ConfigM String}, (∀ id p, Keeps R (ask id) p) →
    ∀ name p, Keeps R (ConfigM.realizeWith ask name) p
  resolve : ∀ p id value, R p
    { p with providers := p.providers.modify id fun c => { c with value := some value, runs := c.runs + 1 } }

section

variable {R : Project → Project → Prop} {ask : ProviderId → ConfigM String} {name : String}

theorem Configurator.keeps_run (hR : Frame R) (hask : ∀ id p, Keeps R (ask id) p) (c : Configurator) (b : TaskBody)
    (p : Project) : Keeps R (c.run ask b) p := by
  cases c with
  | change c => exact .of_pure hR _ p
  | compileFrom unit =>
    refine .get_bind ?_
    split <;> exact .of_pure hR _ p
  | resourcesFrom unit =>
    refine .get_bind ?_
    split <;> exact .of_pure hR _ p
  | logFrom type source =>
    cases b with
    | custom other t =>
      show Keeps R (if type = other then _ else _ : ConfigM TaskBody) p
      split
      · refine .bind hR ?_ fun _ q _ => .of_pure hR _ q
        cases source with
        | property id => exact .get_bind (.of_pure hR _ p)
        | provider id => exact hask id p
      · exact .of_pure hR _ p
    | _ => exact .of_pure hR _ p

namespace ConfigM

theorem keeps_runAll (hR : Frame R) (hask : ∀ id p, Keeps R (ask id) p) (cs : List Configurator) (b : TaskBody)
    (p : Project) : Keeps R (cs.foldlM (Configurator.run ask) b) p :=
  .foldlM hR _ (fun b c q _ => c.keeps_run hR hask b q) b p

/-- Besides what lazy values are asked for, only the mark and the body of the one task are to be kept. -/
theorem keeps_realizeWith (hR : Frame R) (hask : ∀ id p, Keeps R (ask id) p)
    (hmark : ∀ p, R p { p with tasks := p.tasks.update name fun t => { t with realized := true, pending := [] } })
    (hbody : ∀ p body, R p { p with tasks := p.tasks.update name fun t => { t with body := body } }) (p : Project) :
    Keeps R (realizeWith ask name) p := by
  refine .get_bind (.bind hR (keeps_ofExcept hR _ p) fun t q _ => ?_)
  show Keeps R (if t.realized = true then _ else _ : ConfigM TaskBody) q
  split
  · exact .of_pure hR _ q
  · refine .bind hR (.of_modify (hmark q)) ?_
    intro _ q _
    refine .bind hR (keeps_runAll hR hask _ _ q) ?_
    intro b q _
    exact .bind hR (.of_modify (hbody q b)) fun _ q _ => .of_pure hR _ q

end ConfigM

end

theorem Marking.realizeWith {R : Project → Project → Prop} {ask : ProviderId → ConfigM String} (hR : Marking R)
    (hask : ∀ id p, Keeps R (ask id) p) (name : String) (p : Project) : Keeps R (ConfigM.realizeWith ask name) p :=
  ConfigM.keeps_realizeWith hR.toFrame hask (hR.mark · name) (hR.body · name) p

namespace Evaluating

variable {R : Project → Project → Prop}

theorem runThunk (hR : Evaluating R) {ask : List Busy → ProviderId → ConfigM String}
    (hask : ∀ busy id p, Keeps R (ask busy id) p) (busy : List Busy) (runs : Nat) (thunk : Thunk) (p : Project) :
    Keeps R (ConfigM.runThunk ask busy runs thunk) p := by
  cases thunk with
  | compute f => exact .of_pure hR.toFrame _ p
  | property id => exact .get_bind (.of_pure hR.toFrame _ p)
  | group => exact .get_bind (.of_pure hR.toFrame _ p)
  | location l => exact .get_bind (.of_pure hR.toFrame _ p)
  | map source f => exact .bind hR.toFrame (hask busy source p) fun _ q _ => .of_pure hR.toFrame _ q
  | fromTask task read =>
    show Keeps R (if Busy.task task ∈ busy then _ else _ : ConfigM String) p
    split
    · exact .of_throw hR.toFrame _ p
    · refine .bind hR.toFrame (hR.realizeWith (hask _) task p) ?_
      intro b q _
      cases read b with
      | text value => exact .of_pure hR.toFrame _ q
      | provider id => exact hask _ id q

theorem evaluateWith (hR : Evaluating R) (depth : Nat) (busy : List Busy) (id : ProviderId) (p : Project) :
    Keeps R (ConfigM.evaluateWith depth busy id) p := by
  induction depth generalizing busy id p with
  | zero => exact .of_throw hR.toFrame _ p
  | succ depth ih =>
    refine .get_bind ?_
    cases p.providers[id]? with
    | none => exact .of_throw hR.toFrame _ p
    | some cell =>
      dsimp only
      cases cell.value with
      | some value => exact .of_pure hR.toFrame _ p
      | none =>
        show Keeps R (if Busy.provider id ∈ busy then _ else _ : ConfigM String) p
        split
        · exact .of_throw hR.toFrame _ p
        · refine .bind hR.toFrame (hR.runThunk ih _ _ _ p) ?_
          intro value q _
          exact .bind hR.toFrame (.of_modify (hR.resolve q id value)) fun _ q _ => .of_pure hR.toFrame _ q

theorem evaluateBusy (hR : Evaluating R) (busy : List Busy) (id : ProviderId) (p : Project) :
    Keeps R (ConfigM.evaluateBusy busy id) p := .get_bind (hR.evaluateWith _ busy id p)

theorem evaluate (hR : Evaluating R) (id : ProviderId) (p : Project) : Keeps R (ConfigM.evaluate id) p :=
  hR.evaluateBusy [] id p

theorem realize (hR : Evaluating R) (name : String) (p : Project) : Keeps R (ConfigM.realize name) p :=
  hR.realizeWith (hR.evaluateBusy _) name p

theorem realizeChecked (hR : Evaluating R) (name : String) (p : Project) : Keeps R (ConfigM.realizeChecked name) p := by
  refine .bind hR.toFrame (hR.realize name p) ?_
  intro b q _
  cases b.missingInput with
  | some property => exact .of_throw hR.toFrame _ q
  | none => exact .of_pure hR.toFrame _ q

theorem finalize (hR : Evaluating R) (p : Project) : Keeps R ConfigM.finalize p := by
  refine .get_bind (.bind hR.toFrame (.forM hR.toFrame _ (fun name q _ => hR.realizeChecked name q) p) fun _ q _ => ?_)
  refine .get_bind ?_
  cases q.tasks.graph.topologicalSort with
  | ok order => exact .of_pure hR.toFrame _ q
  | error name => exact .of_throw hR.toFrame _ q

/-- Besides what is evaluated, only the body of the task that is configured is to be kept, and what waits for it. -/
theorem configure (hR : Evaluating R) {name : String}
    (hbody : ∀ p body, R p { p with tasks := p.tasks.update name fun t => { t with body := body } })
    (hwait : ∀ p cs, R p { p with tasks := p.tasks.update name fun t => { t with pending := t.pending ++ cs } })
    (cs : List Configurator) (p : Project) : Keeps R (ConfigM.configure name cs) p := by
  refine .get_bind (.bind hR.toFrame (ConfigM.keeps_ofExcept hR.toFrame _ p) fun t q _ => ?_)
  show Keeps R (if t.realized = true then _ else _ : ConfigM Unit) q
  split
  · refine .bind hR.toFrame (ConfigM.keeps_runAll hR.toFrame (hR.evaluateBusy _) _ _ q) fun b q _ => ?_
    exact .of_modify (hbody q b)
  · exact .of_modify (hwait q cs)

end Evaluating

namespace Realizing

variable {R : Project → Project → Prop}

theorem evaluating (hR : Realizing R) : Evaluating R := ⟨hR.toFrame, hR.realizeWith, hR.resolve⟩

theorem configure (hR : Realizing R)
    (hwait : ∀ p name cs, R p { p with tasks := p.tasks.update name fun t => { t with pending := t.pending ++ cs } })
    (name : String) (cs : List Configurator) (p : Project) : Keeps R (ConfigM.configure name cs) p :=
  hR.evaluating.configure (hR.body · name) (hwait · name) cs p

end Realizing

end BuildGraph

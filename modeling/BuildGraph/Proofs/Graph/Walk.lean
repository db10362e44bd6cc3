/-
  BuildGraph.Proofs.Graph.Walk: what a depth-first walk meets.

  A walk never meets a node twice, and whatever a met node leads to has been met or waits on the
  stack (`Walk.Inv`). So a walk that comes to its end has met all it could: where it started and
  everything that is reached from there.

  - `Digraph.mem_preorder`: a node is met exactly if it is the start or reached from it.
  - `Digraph.nodup_preorder`: no node is met twice.
  - `Digraph.preorder_alike`: walks from two nodes that lead to the same nodes go on alike.
  - `Digraph.connects_iff`: the search for a path finds one exactly if there is one.
-/

import BuildGraph.Graph.Walk
import BuildGraph.Proofs.Graph.Paths

namespace BuildGraph

namespace Walk

variable {α : Type} [DecidableEq α] {follow : α → List α}

/-! ## One node further -/

/-- The walk passes over nodes it has met and takes the first one it has not. -/
theorem take_eq_some {seen stack : List α} {a : α} {w : Walk α} (h : take follow seen stack = some (a, w)) :
    ∃ met rest, stack = met ++ a :: rest ∧ (∀ x ∈ met, x ∈ seen) ∧ a ∉ seen ∧
      w = ⟨(follow a).filter (· ∉ a :: seen) ++ rest, a :: seen⟩ := by
  induction stack with
  | nil => simp [take] at h
  | cons b rest ih =>
    unfold take at h
    split at h
    · rename_i hb
      obtain ⟨met, rest', rfl, hm, ha, hw⟩ := ih h
      refine ⟨b :: met, rest', rfl, ?_, ha, hw⟩
      intro x hx
      rcases List.mem_cons.mp hx with rfl | hx
      · exact hb
      · exact hm x hx
    · rename_i hb
      simp only [Option.some.injEq, Prod.mk.injEq] at h
      obtain ⟨rfl, rfl⟩ := h
      exact ⟨[], rest, rfl, by simp, hb, rfl⟩

theorem take_of_append {seen stack met rest : List α} {a : α} (hs : stack = met ++ a :: rest) (hm : ∀ x ∈ met, x ∈ seen)
    (ha : a ∉ seen) : take follow seen stack = some (a, ⟨(follow a).filter (· ∉ a :: seen) ++ rest, a :: seen⟩) := by
  subst hs
  induction met with
  | nil => rw [List.nil_append, take, if_neg ha]
  | cons x met ih =>
    rw [List.cons_append, take, if_pos (hm x (List.mem_cons_self ..))]
    exact ih fun y hy => hm y (List.mem_cons_of_mem _ hy)

theorem take_eq_none {seen stack : List α} : take follow seen stack = none ↔ ∀ a ∈ stack, a ∈ seen := by
  induction stack with
  | nil => simp [take]
  | cons b rest ih =>
    unfold take
    split
    · rename_i hb
      simp [ih, hb]
    · rename_i hb
      simp [hb]

/-- Nothing is met twice, and what a met node leads to has been met or waits. -/
structure Inv (follow : α → List α) (w : Walk α) : Prop where
  nodup : w.seen.Nodup
  closed : ∀ a ∈ w.seen, ∀ b ∈ follow a, b ∈ w.seen ∨ b ∈ w.stack

/-- What going one node further does to a walk. -/
structure Stepped (follow : α → List α) (w : Walk α) (a : α) (w' : Walk α) : Prop where
  waiting : a ∈ w.stack
  fresh : a ∉ w.seen
  seen : w'.seen = a :: w.seen
  /-- What waited has been met or still waits. -/
  kept : ∀ x ∈ w.stack, x ∈ w'.seen ∨ x ∈ w'.stack
  /-- What `a` leads to has been met or waits now. -/
  followed : ∀ x ∈ follow a, x ∈ w'.seen ∨ x ∈ w'.stack
  /-- Nothing waits that did not wait before or is led to by `a`. -/
  origin : ∀ x ∈ w'.stack, x ∈ w.stack ∨ x ∈ follow a

theorem next_stepped {w w' : Walk α} {a : α} (h : w.next follow = some (a, w')) : Stepped follow w a w' := by
  obtain ⟨met, rest, hs, hm, ha, rfl⟩ := take_eq_some h
  refine ⟨by simp [hs], ha, rfl, ?_, ?_, ?_⟩
  · intro x hx
    rw [hs] at hx
    rcases List.mem_append.mp hx with hx | hx
    · exact .inl (List.mem_cons_of_mem _ (hm x hx))
    · rcases List.mem_cons.mp hx with rfl | hx
      · exact .inl (List.mem_cons_self ..)
      · exact .inr (List.mem_append_right _ hx)
  · intro x hx
    by_cases hseen : x ∈ a :: w.seen
    · exact .inl hseen
    · exact .inr (List.mem_append_left _ (List.mem_filter.mpr ⟨hx, by simpa using hseen⟩))
  · intro x hx
    rcases List.mem_append.mp hx with hx | hx
    · exact .inr (List.mem_filter.mp hx).1
    · exact .inl (by simp [hs, hx])

theorem Inv.next {w w' : Walk α} {a : α} (hi : Inv follow w) (h : w.next follow = some (a, w')) : Inv follow w' := by
  have hs := next_stepped h
  refine ⟨by simpa [hs.seen] using ⟨hs.fresh, hi.nodup⟩, ?_⟩
  intro x hx b hb
  rw [hs.seen] at hx
  rcases List.mem_cons.mp hx with rfl | hx
  · exact hs.followed b hb
  · rcases hi.closed x hx b hb with hb | hb
    · exact .inl (by simp [hs.seen, hb])
    · exact hs.kept b hb

/-! ## The whole walk -/

/-- Whatever is not in `xs` is `a` or not in `a :: xs`. -/
theorem countP_not_mem_eq {β : Type} (f : β → α) (l : List β) {xs : List α} {a : α} (ha : a ∉ xs) :
    l.countP (f · ∉ xs) = l.countP (f · = a) + l.countP (f · ∉ a :: xs) := by
  induction l with
  | nil => rfl
  | cons e l ih =>
    by_cases he : f e = a
    · simp [he, ha] at ih ⊢
      omega
    · by_cases hx : f e ∈ xs <;> simp [he, hx] at ih ⊢ <;> omega

/-- A walk meets nothing outside of a set that holds its stack and is closed under `follow`. -/
theorem run_sound {P : α → Prop} (hP : ∀ a, P a → ∀ b ∈ follow a, P b) (n : Nat) (w : Walk α)
    (hw : ∀ a ∈ w.stack, P a) : ∀ a ∈ run follow n w, P a := by
  induction n generalizing w with
  | zero => simp [run]
  | succ n ih =>
    unfold run
    cases hn : w.next follow with
    | none => simp
    | some e =>
      obtain ⟨a, w'⟩ := e
      have hs := next_stepped hn
      have ha := hw a hs.waiting
      intro x hx
      rcases List.mem_cons.mp hx with rfl | hx
      · exact ha
      · refine ih w' (fun y hy => ?_) x hx
        rcases hs.origin y hy with hy | hy
        · exact hw y hy
        · exact hP a ha y hy

theorem run_fresh (n : Nat) (w : Walk α) : (run follow n w).Nodup ∧ ∀ a ∈ run follow n w, a ∉ w.seen := by
  induction n generalizing w with
  | zero => simp [run]
  | succ n ih =>
    unfold run
    cases hn : w.next follow with
    | none => simp
    | some e =>
      obtain ⟨a, w'⟩ := e
      have hs := next_stepped hn
      obtain ⟨hnodup, hfresh⟩ := ih w'
      rw [hs.seen] at hfresh
      simp only [List.mem_cons, not_or] at hfresh
      refine ⟨List.nodup_cons.mpr ⟨fun ha => (hfresh a ha).1 rfl, hnodup⟩, fun x hx => ?_⟩
      rcases List.mem_cons.mp hx with rfl | hx
      · exact hs.fresh
      · exact (hfresh x hx).2

/-- From `w` on, a walk meets the given nodes one after another, and then there is nothing left to meet. -/
inductive Visits (follow : α → List α) : Walk α → List α → Prop
  | done {w : Walk α} : w.next follow = none → Visits follow w []
  | step {w w' : Walk α} {a : α} {as : List α} :
    w.next follow = some (a, w') → Visits follow w' as → Visits follow w (a :: as)

/-- Given enough rounds, a walk comes to its end. `bound` holds all it can come upon. -/
theorem visits_run {bound : List α} (hb : ∀ a ∈ bound, ∀ b ∈ follow a, b ∈ bound) (n : Nat) (w : Walk α)
    (hi : Inv follow w) (hseen : ∀ a ∈ w.seen, a ∈ bound) (hstack : ∀ a ∈ w.stack, a ∈ bound)
    (hn : bound.length ≤ n + w.seen.length) : Visits follow w (run follow n w) := by
  induction n generalizing w with
  | zero =>
    -- as many nodes have been met as there are, so the rest of the stack has been met as well
    refine .done (take_eq_none.mpr fun a ha => ?_)
    by_cases hm : a ∈ w.seen
    · exact hm
    have hsub : a :: w.seen ⊆ bound := by
      intro x hx
      rcases List.mem_cons.mp hx with rfl | hx
      · exact hstack x ha
      · exact hseen x hx
    have hlen := (List.nodup_cons.mpr ⟨hm, hi.nodup⟩).length_le_of_subset hsub
    simp only [List.length_cons] at hlen
    omega
  | succ n ih =>
    unfold run
    cases hnext : w.next follow with
    | none => exact .done hnext
    | some e =>
      obtain ⟨a, w'⟩ := e
      have hs := next_stepped hnext
      have ha := hstack a hs.waiting
      refine .step hnext (ih w' (hi.next hnext) (fun x hx => ?_) (fun x hx => ?_) ?_)
      · rw [hs.seen] at hx
        rcases List.mem_cons.mp hx with rfl | hx
        · exact ha
        · exact hseen x hx
      · exact (hs.origin x hx).elim (hstack x) (hb a ha x)
      · rw [hs.seen, List.length_cons]
        omega

theorem Visits.unique {w : Walk α} {as bs : List α} (h : Visits follow w as) (h' : Visits follow w bs) : as = bs := by
  induction h generalizing bs with
  | done hnone =>
    cases h' with
    | done => rfl
    | step hnext =>
      rw [hnone] at hnext
      cases hnext
  | step hnext _ ih =>
    cases h' with
    | done hnone =>
      rw [hnone] at hnext
      cases hnext
    | step hnext' hrest =>
      rw [hnext] at hnext'
      cases hnext'
      rw [ih hrest]

/-- A walk that has come to its end leaves nothing out. -/
theorem Visits.complete {w : Walk α} {as : List α} (h : Visits follow w as) (hi : Inv follow w) :
    (∀ a ∈ w.stack, a ∈ w.seen ∨ a ∈ as) ∧
      ∀ a, a ∈ w.seen ∨ a ∈ as → ∀ b ∈ follow a, b ∈ w.seen ∨ b ∈ as := by
  induction h with
  | @done w hnone =>
    have hall : ∀ a ∈ w.stack, a ∈ w.seen := take_eq_none.mp hnone
    refine ⟨fun a ha => .inl (hall a ha), fun a ha b hb => ?_⟩
    rcases ha with ha | ha
    · exact .inl ((hi.closed a ha b hb).elim id (hall b))
    · cases ha
  | @step w w' a as hnext _ ih =>
    have hs := next_stepped hnext
    obtain ⟨hwaiting, hclosed⟩ := ih (hi.next hnext)
    -- what the rest of the walk has met before, or meets, is what this walk has met before, or meets
    have hsplit : ∀ x, x ∈ w'.seen ∨ x ∈ as ↔ x ∈ w.seen ∨ x ∈ a :: as := by
      intro x
      rw [hs.seen, List.mem_cons, List.mem_cons, or_assoc, or_left_comm]
    refine ⟨fun x hx => (hsplit x).mp ?_, fun x hx b hb => (hsplit b).mp (hclosed x ((hsplit x).mpr hx) b hb)⟩
    rcases hs.kept x hx with hx | hx
    · exact .inl hx
    · exact hwaiting x hx

/-! ## Walks that go on alike -/

/-- The same nodes wait in the same order, all of them in `P`, and of those in `P` the same have been met. -/
structure Alike (P : α → Prop) (w v : Walk α) : Prop where
  stack : v.stack = w.stack
  inside : ∀ a ∈ w.stack, P a
  seen : ∀ a, P a → (a ∈ v.seen ↔ a ∈ w.seen)

namespace Alike

variable {P : α → Prop} {w w' v : Walk α} {a : α} {follow' : α → List α}

theorem next_none (h : Alike P w v) (hw : w.next follow = none) : v.next follow' = none := by
  refine take_eq_none.mpr fun x hx => ?_
  rw [h.stack] at hx
  exact (h.seen x (h.inside x hx)).mpr (take_eq_none.mp hw x hx)

/-- Walks that are alike meet the same node next if it leads to the same nodes in both. -/
theorem next (hP : ∀ a, P a → ∀ b ∈ follow a, P b) (hfollow : ∀ a, P a → follow' a = follow a) (h : Alike P w v)
    (hw : w.next follow = some (a, w')) : ∃ v', v.next follow' = some (a, v') ∧ Alike P w' v' := by
  obtain ⟨met, rest, hstack, hmet, ha, rfl⟩ := take_eq_some hw
  have hinside : ∀ x ∈ met ++ a :: rest, P x := fun x hx => h.inside x (hstack ▸ hx)
  have hPa : P a := hinside a (by simp)
  have hseen : ∀ x, P x → (x ∈ a :: v.seen ↔ x ∈ a :: w.seen) := fun x hx => by
    rw [List.mem_cons, List.mem_cons, h.seen x hx]
  have hnext : v.next follow' = some (a, ⟨(follow' a).filter (· ∉ a :: v.seen) ++ rest, a :: v.seen⟩) := by
    refine take_of_append (h.stack.trans hstack) (fun x hx => ?_) fun hav => ha ((h.seen a hPa).mp hav)
    exact (h.seen x (hinside x (List.mem_append_left _ hx))).mpr (hmet x hx)
  refine ⟨_, hnext, ?_, ?_, hseen⟩
  · show (follow' a).filter _ ++ rest = (follow a).filter _ ++ rest
    rw [hfollow a hPa]
    refine congrArg (· ++ rest) (List.filter_congr fun x hx => ?_)
    rw [decide_eq_decide]
    exact not_congr (hseen x (hP a hPa x hx))
  · intro x hx
    rcases List.mem_append.mp hx with hx | hx
    · exact hP a hPa x (List.mem_filter.mp hx).1
    · exact hinside x (by simp [hx])

theorem visits {as : List α} (hP : ∀ a, P a → ∀ b ∈ follow a, P b) (hfollow : ∀ a, P a → follow' a = follow a)
    (h : Alike P w v) (hw : Visits follow w as) : Visits follow' v as := by
  induction hw generalizing v with
  | done hnone => exact .done (h.next_none hnone)
  | step hnext _ ih =>
    obtain ⟨v', hv, halike⟩ := h.next hP hfollow hnext
    exact .step hv (ih halike)

end Alike

end Walk

namespace Digraph

variable {α : Type} [DecidableEq α] (g : Digraph α)

theorem nodup_preorder (start : α) : (g.preorder start).Nodup := (Walk.run_fresh _ _).1

theorem head?_preorder (start : α) : (g.preorder start).head? = some start := by
  simp [preorder, Walk.run, Walk.next, Walk.take]

/-- The bound on a walk leaves it enough rounds to come to its end. -/
theorem visits_preorder (start : α) : Walk.Visits g.successors ⟨[start], []⟩ (g.preorder start) := by
  have hbound : ∀ a ∈ start :: g.edges.map (·.2), ∀ b ∈ g.successors a, b ∈ start :: g.edges.map (·.2) := fun a _ b hb =>
    List.mem_cons_of_mem _ (List.mem_map.mpr ⟨(a, b), mem_successors.mp hb, rfl⟩)
  exact Walk.visits_run hbound _ _ ⟨List.nodup_nil, by simp⟩ (by simp) (by simp) (by simp)

/-- A walk meets where it starts, and all that is reached from there. -/
theorem mem_preorder {start a : α} : a ∈ g.preorder start ↔ a = start ∨ g.Reaches start a := by
  constructor
  · refine Walk.run_sound (P := fun a => a = start ∨ g.Reaches start a) ?_ _ _ (by simp) a
    rintro b (rfl | hb) c hc
    · exact .inr (.edge (mem_successors.mp hc))
    · exact .inr (hb.snoc (mem_successors.mp hc))
  · obtain ⟨hstart, hclosed⟩ := (g.visits_preorder start).complete ⟨List.nodup_nil, by simp⟩
    have hmet : start ∈ g.preorder start := (hstart start (by simp)).resolve_left (by simp)
    rintro (rfl | hr)
    · exact hmet
    · refine hr.closed (P := (· ∈ g.preorder start)) (fun a b he ha => ?_) hmet
      exact (hclosed a (.inr ha) b (mem_successors.mpr he)).resolve_left (by simp)

variable {g}

/-- Without an edge back to it, the first node of a walk leaves what it leads to. -/
theorem next_start {a : α} (ha : a ∉ g.successors a) :
    Walk.next g.successors ⟨[a], []⟩ = some (a, ⟨g.successors a, [a]⟩) := by
  have hstay : (g.successors a).filter (· ∉ [a]) = g.successors a :=
    List.filter_eq_self.mpr fun x hx => by simpa using fun he : x = a => ha (he ▸ hx)
  rw [Walk.next, Walk.take_of_append (show [a] = [] ++ a :: [] from rfl) (by simp) (by simp), hstay, List.append_nil]

/-- If `a` and `b` lead to the same nodes and are not met again from there, and all that comes after leads to the
    same nodes in both graphs, then the walks from `a` and from `b` go on alike. -/
theorem preorder_alike {h : Digraph α} {a b : α} (hsucc : h.successors b = g.successors a)
    (hbeyond : ∀ x, g.Reaches a x → h.successors x = g.successors x) (ha : ¬ g.Reaches a a) (hb : ¬ g.Reaches a b) :
    ∃ beyond, g.preorder a = a :: beyond ∧ h.preorder b = b :: beyond := by
  have hreach : ∀ x ∈ g.successors a, g.Reaches a x := fun x hx => .edge (mem_successors.mp hx)
  have hnexta := next_start fun h => ha (hreach a h)
  have hnextb : Walk.next h.successors ⟨[b], []⟩ = some (b, ⟨g.successors a, [b]⟩) := by
    rw [next_start fun h' => hb (hreach b (hsucc ▸ h')), hsucc]
  have hvisits := g.visits_preorder a
  generalize g.preorder a = met at hvisits
  cases hvisits with
  | done hnone =>
    rw [hnexta] at hnone
    cases hnone
  | @step _ _ _ beyond hnext hrest =>
    rw [hnexta] at hnext
    cases hnext
    refine ⟨beyond, rfl, (h.visits_preorder b).unique (.step hnextb ?_)⟩
    -- what comes after is reached from `a`, so neither `a` nor `b` is among it
    have halike : Walk.Alike (g.Reaches a) ⟨g.successors a, [a]⟩ ⟨g.successors a, [b]⟩ := by
      refine ⟨rfl, hreach, fun x hx => ?_⟩
      have hxa : x ≠ a := fun he => ha (he ▸ hx)
      have hxb : x ≠ b := fun he => hb (he ▸ hx)
      simp [hxa, hxb]
    exact halike.visits (fun x hx y hy => hx.snoc (mem_successors.mp hy)) hbeyond hrest

variable (g) in
theorem connects_iff {a b : α} : g.connects a b = true ↔ a = b ∨ g.Reaches a b := by
  rw [connects, List.contains_iff_mem, mem_preorder, eq_comm]

end Digraph

end BuildGraph

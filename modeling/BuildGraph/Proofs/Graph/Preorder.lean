/-
  BuildGraph.Proofs.Graph.Preorder: the depth-first walk as a recursion.

  The walk keeps a stack. A node that several others lead to lies on it several times, is marked only when it is
  taken from the stack, and may have been met by then. `Preorder` is the same search without a stack: a node that
  has not been met is listed, then all that is found from what it leads to, one after another, and only then its
  siblings.

  - `Preorder.unique`: the recursion lists the nodes in one way.
  - `Walk.Visits.preorder`: what a walk meets is what the recursion lists, whatever waits on its stack.
  - `Digraph.preorder_iff`: a walk from one node lists the recursive preorder of that node.
-/

import BuildGraph.Proofs.Graph.Walk

namespace BuildGraph

/-! ## The recursion -/

/-- `Preorder follow seen as names`: going through `as`, with `seen` met before, latest first, the recursion lists
    `names`. -/
inductive Preorder {α : Type} (follow : α → List α) : List α → List α → List α → Prop
  | nil {seen : List α} : Preorder follow seen [] []
  /-- A node that has been met is passed over. -/
  | skip {seen : List α} {a : α} {as names : List α} :
    a ∈ seen → Preorder follow seen as names → Preorder follow seen (a :: as) names
  /-- Any other is listed, then what is found below it, then what the others lead to beyond that. -/
  | visit {seen : List α} {a : α} {as below beyond : List α} :
    a ∉ seen → Preorder follow (a :: seen) (follow a) below → Preorder follow (below.reverse ++ a :: seen) as beyond →
      Preorder follow seen (a :: as) (a :: below ++ beyond)

namespace Preorder

variable {α : Type} {follow : α → List α} {seen as bs names names' : List α}

theorem unique (h : Preorder follow seen as names) (h' : Preorder follow seen as names') : names = names' := by
  induction h generalizing names' with
  | nil =>
    cases h'
    rfl
  | skip hmet _ ih =>
    cases h' with
    | skip _ hrest => exact ih hrest
    | visit hnew => exact absurd hmet hnew
  | visit hnew _ _ ihbelow ihbeyond =>
    cases h' with
    | skip hmet => exact absurd hmet hnew
    | visit _ hbelow hbeyond =>
      cases ihbelow hbelow
      cases ihbeyond hbeyond
      rfl

/-- Going through two lists one after the other, what the first leads to has been met when the second is due. -/
theorem of_append (h : Preorder follow seen (as ++ bs) names) :
    ∃ front back, names = front ++ back ∧ Preorder follow seen as front ∧
      Preorder follow (front.reverse ++ seen) bs back := by
  induction as generalizing seen names with
  | nil => exact ⟨[], names, rfl, .nil, h⟩
  | cons a as ih =>
    cases h with
    | skip hmet hrest =>
      obtain ⟨front, back, hnames, hfront, hback⟩ := ih hrest
      exact ⟨front, back, hnames, .skip hmet hfront, hback⟩
    | @visit _ _ _ below beyond hnew hbelow hbeyond =>
      obtain ⟨front, back, rfl, hfront, hback⟩ := ih hbeyond
      refine ⟨a :: below ++ front, back, by simp, .visit hnew hbelow hfront, ?_⟩
      have hseen : (a :: below ++ front).reverse ++ seen = front.reverse ++ (below.reverse ++ a :: seen) := by simp
      rw [hseen]
      exact hback

theorem skip_all {met : List α} (hmet : ∀ a ∈ met, a ∈ seen) (h : Preorder follow seen as names) :
    Preorder follow seen (met ++ as) names := by
  induction met with
  | nil => exact h
  | cons a met ih =>
    exact .skip (hmet a (List.mem_cons_self ..)) (ih fun b hb => hmet b (List.mem_cons_of_mem _ hb))

/-- It makes no difference whether nodes that have been met are left out from the start. -/
theorem of_filter [DecidableEq α] {met : List α} (hmet : ∀ a ∈ met, a ∈ seen)
    (h : Preorder follow seen (as.filter (· ∉ met)) names) : Preorder follow seen as names := by
  induction as generalizing seen names with
  | nil => exact h
  | cons a as ih =>
    by_cases ha : a ∈ met
    · rw [List.filter_cons_of_neg (by simpa using ha)] at h
      exact .skip (hmet a ha) (ih hmet h)
    · rw [List.filter_cons_of_pos (by simpa using ha)] at h
      cases h with
      | skip hmeta hrest => exact .skip hmeta (ih hmet hrest)
      | visit hnew hbelow hbeyond =>
        refine .visit hnew hbelow (ih (fun b hb => ?_) hbeyond)
        exact List.mem_append_right _ (List.mem_cons_of_mem _ (hmet b hb))

end Preorder

/-! ## The walk -/

variable {α : Type} [DecidableEq α] {follow : α → List α}

/-- A walk meets what the recursion lists. What the node it meets leads to lies above all else on its stack, so all
    that is found there comes first; and what is not put on the stack has been met and would be passed over. -/
theorem Walk.Visits.preorder {w : Walk α} {names : List α} (h : Visits follow w names) :
    Preorder follow w.seen w.stack names := by
  induction h with
  | @done w hnone =>
    have hall : ∀ a ∈ w.stack, a ∈ w.seen := take_eq_none.mp hnone
    rw [← List.append_nil w.stack]
    exact .skip_all hall .nil
  | @step w w' a as hnext _ ih =>
    obtain ⟨met, rest, hstack, hmet, ha, rfl⟩ := take_eq_some hnext
    obtain ⟨below, beyond, rfl, hbelow, hbeyond⟩ := ih.of_append
    rw [hstack]
    exact .skip_all hmet (.visit ha (hbelow.of_filter fun _ hx => hx) hbeyond)

namespace Digraph

variable {g : Digraph α}

/-- From one node the walk lists what the recursion lists, where both follow the edges of the graph in order. It is
    enough that they agree on the nodes of a set that no edge leaves. -/
theorem preorder_iff {P : α → Prop} (hP : ∀ a b, (a, b) ∈ g.edges → P a → P b)
    (hfollow : ∀ a, P a → follow a = g.successors a) {start : α} (hstart : P start) {names : List α} :
    Preorder follow [] [start] names ↔ names = g.preorder start := by
  have hclosed : ∀ a, P a → ∀ b ∈ g.successors a, P b := fun a ha b hb => hP a b (mem_successors.mp hb) ha
  have halike : Walk.Alike P ⟨[start], []⟩ ⟨[start], []⟩ := ⟨rfl, by simpa using hstart, fun _ _ => Iff.rfl⟩
  have hvisits : Walk.Visits follow ⟨[start], []⟩ (g.preorder start) :=
    halike.visits hclosed hfollow (g.visits_preorder start)
  have hlists : Preorder follow [] [start] (g.preorder start) := hvisits.preorder
  exact ⟨fun h => h.unique hlists, fun h => h ▸ hlists⟩

end Digraph

end BuildGraph

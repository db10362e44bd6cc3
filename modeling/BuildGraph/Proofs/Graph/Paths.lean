/-
  BuildGraph.Proofs.Graph.Paths: paths in a directed graph, and orders of its nodes.

  - `Reaches.closed`: what holds of a node and is handed on along edges holds of all it reaches.
  - `Acyclic.of_rank`: a graph whose edges climb has no cycle.
  - `Acyclic.connect`: an edge closes no cycle if there is no path back.
  - `successors_connect`: what the source of a new edge leads to, it led to before or is the target.
  - `Before`: one node stands in front of another in an order. In an order without repetition
    (`Before.trans`, `Before.irrefl`) this is a strict order.
-/

import BuildGraph.Distinct
import BuildGraph.Graph.Digraph

namespace BuildGraph

namespace Digraph

variable {α : Type} {g h : Digraph α} {a b c : α}

/-! ## Paths -/

theorem Reaches.trans (hab : g.Reaches a b) (hbc : g.Reaches b c) : g.Reaches a c := by
  induction hab with
  | edge he => exact .step he hbc
  | step he _ ih => exact .step he (ih hbc)

theorem Reaches.snoc (hab : g.Reaches a b) (hbc : (b, c) ∈ g.edges) : g.Reaches a c := hab.trans (.edge hbc)

theorem Reaches.mono (hs : ∀ e ∈ g.edges, e ∈ h.edges) (hr : g.Reaches a b) : h.Reaches a b := by
  induction hr with
  | edge he => exact .edge (hs _ he)
  | step he _ ih => exact .step (hs _ he) ih

/-- Turning all edges round turns all paths round. -/
theorem Reaches.flip (hs : ∀ a b, (a, b) ∈ g.edges → (b, a) ∈ h.edges) (hr : g.Reaches a b) : h.Reaches b a := by
  induction hr with
  | edge he => exact .edge (hs _ _ he)
  | step he _ ih => exact ih.snoc (hs _ _ he)

theorem Reaches.closed {P : α → Prop} (hP : ∀ a b, (a, b) ∈ g.edges → P a → P b) (hr : g.Reaches a b) (ha : P a) :
    P b := by
  induction hr with
  | edge he => exact hP _ _ he ha
  | step he _ ih => exact ih (hP _ _ he ha)

/-- Some edge starts a path, and some edge ends it. -/
theorem Reaches.ends (hr : g.Reaches a b) : (∃ x, (a, x) ∈ g.edges) ∧ ∃ y, (y, b) ∈ g.edges := by
  induction hr with
  | edge he => exact ⟨⟨_, he⟩, ⟨_, he⟩⟩
  | step he _ ih => exact ⟨⟨_, he⟩, ih.2⟩

/-- Along a path in a graph whose edges climb, the rank climbs. -/
theorem Reaches.rank_lt {rank : α → Nat} (hk : ∀ a b, (a, b) ∈ g.edges → rank a < rank b) (hr : g.Reaches a b) :
    rank a < rank b := by
  induction hr with
  | edge he => exact hk _ _ he
  | step he _ ih => exact Nat.lt_trans (hk _ _ he) ih

theorem Acyclic.of_rank (rank : α → Nat) (hk : ∀ a b, (a, b) ∈ g.edges → rank a < rank b) : g.Acyclic :=
  fun _ hr => Nat.lt_irrefl _ (hr.rank_lt hk)

/-- Fewer edges close no more cycles. -/
theorem Acyclic.of_subset (hg : g.Acyclic) (hs : ∀ e ∈ h.edges, e ∈ g.edges) : h.Acyclic :=
  fun a hr => hg a (hr.mono hs)

/-- One more edge comes after all others. -/
theorem prefix_connect [DecidableEq α] (edges : List (α × α)) (a b : α) : edges <+: connect edges a b := by
  unfold connect
  split
  · exact List.prefix_rfl
  · exact List.prefix_append ..

/-- A path after one more edge was added is a path from before, or one to the edge and one from it. -/
theorem Reaches.of_connect [DecidableEq α] {nodes : List α} {x y : α}
    (hr : (⟨nodes, connect g.edges a b⟩ : Digraph α).Reaches x y) :
    g.Reaches x y ∨ (x = a ∨ g.Reaches x a) ∧ (y = b ∨ g.Reaches b y) := by
  induction hr with
  | edge hxy =>
    rcases mem_connect.mp hxy with he | he
    · exact .inl (.edge he)
    · cases he
      exact .inr ⟨.inl rfl, .inl rfl⟩
  | step hxz _ ih =>
    rcases mem_connect.mp hxz with he | he
    · rcases ih with hr | ⟨rfl | hr, hy⟩
      · exact .inl (.step he hr)
      · exact .inr ⟨.inr (.edge he), hy⟩
      · exact .inr ⟨.inr (.step he hr), hy⟩
    · cases he
      rcases ih with hr | ⟨-, hy⟩
      · exact .inr ⟨.inl rfl, .inr hr⟩
      · exact .inr ⟨.inl rfl, hy⟩

/-- An edge between different nodes closes no cycle, unless there is a path back. -/
theorem Acyclic.connect [DecidableEq α] {nodes : List α} (hg : g.Acyclic) (hne : a ≠ b) (hback : ¬ g.Reaches b a) :
    (⟨nodes, Digraph.connect g.edges a b⟩ : Digraph α).Acyclic := by
  intro x hr
  rcases hr.of_connect with hr | ⟨rfl | hxa, rfl | hbx⟩
  · exact hg x hr
  · exact hne rfl
  · exact hback hbx
  · exact hback hxa
  · exact hback (hbx.trans hxa)

/-! ## Neighbours -/

section Neighbours

variable [DecidableEq α] {nodes : List α} {edges : List (α × α)} {x : α}

/-- One more edge adds its target to what its source leads to. -/
theorem successors_connect : (Digraph.mk nodes (connect edges a b)).successors x =
    if x = a then Distinct.add ((Digraph.mk nodes edges).successors x) b else (Digraph.mk nodes edges).successors x := by
  have hmem : b ∈ (Digraph.mk nodes edges).successors a ↔ (a, b) ∈ edges := mem_successors
  unfold connect
  by_cases he : (a, b) ∈ edges
  · rw [if_pos he]
    split
    · rename_i hx
      rw [hx, Distinct.add, if_pos (List.contains_iff_mem.mpr (hmem.mpr he))]
    · rfl
  · rw [if_neg he]
    by_cases hx : x = a
    · subst hx
      rw [if_pos rfl, Distinct.add, if_neg (fun hc => he (hmem.mp (List.contains_iff_mem.mp hc)))]
      simp [successors]
    · rw [if_neg hx]
      simp [successors, Ne.symm hx]

/-- One more edge adds its source to what leads to its target. -/
theorem predecessors_connect : (Digraph.mk nodes (connect edges a b)).predecessors x =
    if x = b then Distinct.add ((Digraph.mk nodes edges).predecessors x) a else (Digraph.mk nodes edges).predecessors x := by
  have hmem : a ∈ (Digraph.mk nodes edges).predecessors b ↔ (a, b) ∈ edges := mem_predecessors
  unfold connect
  by_cases he : (a, b) ∈ edges
  · rw [if_pos he]
    split
    · rename_i hx
      rw [hx, Distinct.add, if_pos (List.contains_iff_mem.mpr (hmem.mpr he))]
    · rfl
  · rw [if_neg he]
    by_cases hx : x = b
    · subst hx
      rw [if_pos rfl, Distinct.add, if_neg (fun hc => he (hmem.mp (List.contains_iff_mem.mp hc)))]
      simp [predecessors]
    · rw [if_neg hx]
      simp [predecessors, Ne.symm hx]

theorem nodup_successors (h : g.edges.Nodup) (a : α) : (g.successors a).Nodup := by
  refine List.pairwise_map.mpr ((h.filter _).imp_of_mem fun {e e'} he he' hne heq => hne ?_)
  have hfirst : e.1 = e'.1 := by
    rw [show e.1 = a by simpa using (List.mem_filter.mp he).2, show e'.1 = a by simpa using (List.mem_filter.mp he').2]
  exact Prod.ext hfirst heq

end Neighbours

/-- Each node once, and no edge but between nodes. -/
structure WellFormed (g : Digraph α) : Prop where
  nodup : g.nodes.Nodup
  source : ∀ a b, (a, b) ∈ g.edges → a ∈ g.nodes
  target : ∀ a b, (a, b) ∈ g.edges → b ∈ g.nodes

end Digraph

/-! ## Orders -/

/-- `a` stands at a smaller position than `b`. -/
def Before {α : Type} (order : List α) (a b : α) : Prop :=
  ∃ i j : Nat, i < j ∧ order[i]? = some a ∧ order[j]? = some b

namespace Before

variable {α : Type} {order : List α} {a b c : α}

theorem of_mem_front {xs ys : List α} (ha : a ∈ xs) : Before (xs ++ b :: ys) a b := by
  obtain ⟨i, hi, rfl⟩ := List.mem_iff_getElem.mp ha
  refine ⟨i, xs.length, hi, ?_, by simp⟩
  rw [List.getElem?_append_left hi, List.getElem?_eq_getElem hi]

theorem trans (hn : order.Nodup) (hab : Before order a b) (hbc : Before order b c) : Before order a c := by
  obtain ⟨i, j, hij, hi, hj⟩ := hab
  obtain ⟨j', k, hjk, hj', hk⟩ := hbc
  -- in an order without repetition a node has one position
  have := (List.getElem?_inj (List.getElem?_eq_some_iff.mp hj).1 hn).mp (hj.trans hj'.symm)
  exact ⟨i, k, by omega, hi, hk⟩

theorem irrefl (hn : order.Nodup) (h : Before order a a) : False := by
  obtain ⟨i, j, hij, hi, hj⟩ := h
  have := (List.getElem?_inj (List.getElem?_eq_some_iff.mp hi).1 hn).mp (hi.trans hj.symm)
  omega

end Before

namespace Digraph

variable {α : Type} {g : Digraph α} {order : List α} {a b : α}

/-- Paths follow an order that every edge follows. -/
theorem Reaches.before (hn : order.Nodup) (ho : ∀ a b, (a, b) ∈ g.edges → Before order a b) (hr : g.Reaches a b) :
    Before order a b := by
  induction hr with
  | edge he => exact ho _ _ he
  | step he _ ih => exact (ho _ _ he).trans hn ih

/-- A graph whose nodes can be put in order has no cycle. -/
theorem Acyclic.of_before (hn : order.Nodup) (ho : ∀ a b, (a, b) ∈ g.edges → Before order a b) : g.Acyclic :=
  fun _ hr => (hr.before hn ho).irrefl hn

end Digraph

end BuildGraph

/-
  BuildGraph.Proofs.Graph.TopologicalSort: the sort orders every graph that can be ordered.

  The first pass is an exploration whose stack may hold a node several times. What keeps it right
  is said of the topmost place of each open node, that is, each node entered and not left yet
  (`Exploration.Inv`): above it lie only nodes it reaches, among them all it leads to that has
  not been entered. So when a node is left, whatever it leads to has been left before or reaches
  it (`Exploration.Inv.back`). The second pass checks the order it is given; a node it reports
  was left too early and lies on a cycle.

  - `Digraph.topologicalSort_spec`: the sort gives an order in which each edge points forward,
    or a node on a cycle.
  - `Digraph.exists_topologicalSort_iff`: it gives an order exactly if there is no cycle.
-/

import BuildGraph.Graph.TopologicalSort
import BuildGraph.Proofs.Graph.Walk

namespace BuildGraph

namespace Exploration

variable {α : Type} {g : Digraph α} {s : Exploration α} {a : α} {rest : List α}

/-! ## One round of the first pass -/

/-- What holds throughout the first pass. -/
structure Inv (g : Digraph α) (s : Exploration α) : Prop where
  left_nodup : s.left.Nodup
  left_entered : ∀ a ∈ s.left, a ∈ s.entered
  entered_nodes : ∀ a ∈ s.entered, a ∈ g.nodes
  stack_nodes : ∀ a ∈ s.stack, a ∈ g.nodes
  loopless : ∀ a ∈ s.entered, (a, a) ∉ g.edges
  open_waits : ∀ a ∈ s.entered, a ∉ s.left → a ∈ s.stack
  /-- Above the topmost place of an open node lie only nodes it reaches, and all it leads to that is not
      entered. -/
  above : ∀ xs a ys, s.stack = xs ++ a :: ys → a ∉ xs → a ∈ s.entered → a ∉ s.left →
    (∀ x ∈ xs, g.Reaches a x) ∧ ∀ b, (a, b) ∈ g.edges → b ∈ s.entered ∨ b ∈ xs
  /-- What a left node leads to was left before it or reaches it. -/
  back : ∀ xs a ys, s.left = xs ++ a :: ys → ∀ b, (a, b) ∈ g.edges → b ∈ ys ∨ g.Reaches b a

/-- Below an entered node on top of the stack, what lies above an open node's topmost place is the same but
    for that node. -/
theorem Inv.above_tail (hi : Inv g s) (hs : s.stack = a :: rest) (ha : a ∈ s.entered) {xs ys : List α} {x : α}
    (hsplit : rest = xs ++ x :: ys) (hne : x ≠ a) (hxs : x ∉ xs) (hx : x ∈ s.entered) (hxl : x ∉ s.left) :
    (∀ y ∈ xs, g.Reaches x y) ∧ ∀ b, (x, b) ∈ g.edges → b ∈ s.entered ∨ b ∈ xs := by
  obtain ⟨hreach, hnext⟩ := hi.above (a :: xs) x ys (by simp [hs, hsplit]) (by simp [hne, hxs]) hx hxl
  refine ⟨fun y hy => hreach y (List.mem_cons_of_mem _ hy), fun b hb => ?_⟩
  rcases hnext b hb with hb | hb
  · exact .inl hb
  · rcases List.mem_cons.mp hb with rfl | hb
    · exact .inl ha
    · exact .inr hb

/-- Taking a left node from the stack. -/
theorem Inv.drop (hi : Inv g s) (hs : s.stack = a :: rest) (ha : a ∈ s.left) : Inv g { s with stack := rest } := by
  refine ⟨hi.left_nodup, hi.left_entered, hi.entered_nodes, fun x hx => hi.stack_nodes x (by simp [hs, hx]),
    hi.loopless, ?_, ?_, hi.back⟩
  · intro x hx hxl
    have := hi.open_waits x hx hxl
    rw [hs] at this
    exact (List.mem_cons.mp this).resolve_left fun h => hxl (h ▸ ha)
  · intro xs x ys hsplit hxs hx hxl
    exact hi.above_tail hs (hi.left_entered a ha) hsplit (fun h => hxl (h ▸ ha)) hxs hx hxl

/-- Leaving the node on top of the stack. -/
theorem Inv.leave (hi : Inv g s) (hs : s.stack = a :: rest) (ha : a ∈ s.entered) (hal : a ∉ s.left) :
    Inv g { s with stack := rest, left := a :: s.left } := by
  refine ⟨List.nodup_cons.mpr ⟨hal, hi.left_nodup⟩, ?_, hi.entered_nodes,
    fun x hx => hi.stack_nodes x (by simp [hs, hx]), hi.loopless, ?_, ?_, ?_⟩
  · intro x hx
    rcases List.mem_cons.mp hx with rfl | hx
    · exact ha
    · exact hi.left_entered x hx
  · intro x hx hxl
    simp only [List.mem_cons, not_or] at hxl
    have := hi.open_waits x hx hxl.2
    rw [hs] at this
    exact (List.mem_cons.mp this).resolve_left hxl.1
  · intro xs x ys hsplit hxs hx hxl
    simp only [List.mem_cons, not_or] at hxl
    exact hi.above_tail hs ha hsplit hxl.1 hxs hx hxl.2
  · intro xs x ys hsplit b hb
    cases xs with
    | cons u us =>
      simp only [List.cons_append, List.cons.injEq] at hsplit
      exact hi.back us x ys hsplit.2 b hb
    | nil =>
      simp only [List.nil_append, List.cons.injEq] at hsplit
      obtain ⟨rfl, rfl⟩ := hsplit
      -- nothing lies above `a`, so `b` is entered; if it is open, it waits below `a` and reaches it
      have hbe : b ∈ s.entered := by
        simpa using (hi.above [] a rest hs (by simp) ha hal).2 b hb
      by_cases hbl : b ∈ s.left
      · exact .inl hbl
      have hne : b ≠ a := fun h => hi.loopless a ha (h ▸ hb)
      have hbs := hi.open_waits b hbe hbl
      rw [hs] at hbs
      obtain ⟨us, vs, hrest, hus⟩ := List.eq_append_cons_of_mem ((List.mem_cons.mp hbs).resolve_left hne)
      exact .inr ((hi.above (a :: us) b vs (by simp [hs, hrest]) (by simp [hne, hus]) hbe hbl).1 a
        (List.mem_cons_self ..))

/-- Between two roots the stack is empty, so the invariant holds with the next root on it. -/
theorem Inv.start (hi : Inv g s) (hs : s.stack = []) (han : a ∈ g.nodes) :
    Inv g { s with stack := [a] } := by
  have hleft : ∀ x ∈ s.entered, x ∈ s.left := by
    intro x hx
    by_cases hxl : x ∈ s.left
    · exact hxl
    · have := hi.open_waits x hx hxl
      simp [hs] at this
  refine ⟨hi.left_nodup, hi.left_entered, hi.entered_nodes, ?_, hi.loopless, ?_, ?_, hi.back⟩
  · intro x hx
    rw [List.mem_singleton] at hx
    exact hx ▸ han
  · intro x hx hxl
    exact absurd (hleft x hx) hxl
  · intro xs x ys _ _ hx hxl
    exact absurd (hleft x hx) hxl

/-- What working the stack off comes to. -/
structure Settled (g : Digraph α) (s s' : Exploration α) : Prop where
  inv : Inv g s'
  stack : s'.stack = []
  kept : ∀ a ∈ s.entered, a ∈ s'.entered
  entered : ∀ a ∈ s.stack, a ∈ s'.entered

theorem Settled.of_empty (hi : Inv g s) (hs : s.stack = []) : Settled g s s :=
  ⟨hi, hs, fun _ h => h, by simp [hs]⟩

/-- A place of `x` in a list lies beyond every prefix that `x` is not in. -/
theorem split_beyond {ps ws xs ys : List α} {x : α} (h : ps ++ ws = xs ++ x :: ys) (hx : x ∉ ps) :
    ∃ us, xs = ps ++ us ∧ ws = us ++ x :: ys := by
  rcases List.append_eq_append_iff.mp h with ⟨us, h1, h2⟩ | ⟨us, h1, h2⟩
  · exact ⟨us, h1, h2⟩
  · cases us with
    | nil => exact ⟨[], by simpa using h1.symm, by simpa using h2.symm⟩
    | cons u us =>
      simp only [List.cons_append, List.cons.injEq] at h2
      exact absurd (by rw [h1, h2.1]; simp) hx

variable [DecidableEq α]

/-- The exploration after entering `a`. -/
def enter (g : Digraph α) (s : Exploration α) (a : α) (rest : List α) : Exploration α :=
  { s with
    stack := (g.successors a).filter (· ∉ a :: s.entered) ++ a :: rest
    entered := a :: s.entered }

/-- What entering a node puts on the stack is what it leads to that is new, the node itself apart. -/
theorem edge_of_pushed {x : α} (hx : x ∈ (g.successors a).filter (· ∉ a :: s.entered)) :
    (a, x) ∈ g.edges ∧ x ≠ a ∧ x ∉ s.entered := by
  obtain ⟨hx, hnew⟩ := List.mem_filter.mp hx
  simp only [List.mem_cons, not_or, decide_eq_true_eq] at hnew
  exact ⟨Digraph.mem_successors.mp hx, hnew⟩

/-- Above the node just entered lies what it leads to that is new; what lies above another open node grows by
    that, and the other node reaches it through the one entered. -/
theorem Inv.above_enter (hi : Inv g s) (hs : s.stack = a :: rest) {xs ys : List α} {x : α}
    (hsplit : (s.enter g a rest).stack = xs ++ x :: ys) (hxs : x ∉ xs) (hx : x ∈ a :: s.entered) (hxl : x ∉ s.left) :
    (∀ y ∈ xs, g.Reaches x y) ∧ ∀ b, (x, b) ∈ g.edges → b ∈ a :: s.entered ∨ b ∈ xs := by
  -- an open node is none of those just put on the stack, so its topmost place is `a`'s or below
  have hxp : x ∉ (g.successors a).filter (· ∉ a :: s.entered) := by
    intro hp
    obtain ⟨-, hne, hnew⟩ := edge_of_pushed hp
    rcases List.mem_cons.mp hx with rfl | hx
    · exact hne rfl
    · exact hnew hx
  obtain ⟨us, rfl, hus⟩ := split_beyond hsplit hxp
  cases us with
  | nil =>
    simp only [List.nil_append, List.cons.injEq] at hus
    obtain ⟨rfl, -⟩ := hus
    refine ⟨fun y hy => .edge (edge_of_pushed (by simpa using hy)).1, fun b hb => ?_⟩
    by_cases hbe : b ∈ a :: s.entered
    · exact .inl hbe
    · exact .inr (List.mem_append_left _
        (List.mem_filter.mpr ⟨Digraph.mem_successors.mpr hb, by simpa using hbe⟩))
  | cons u us =>
    have hau : u = a := by simp only [List.cons_append, List.cons.injEq] at hus; exact hus.1.symm
    subst hau
    simp only [List.mem_append, List.mem_cons, not_or] at hxs
    have hx' : x ∈ s.entered := (List.mem_cons.mp hx).resolve_left hxs.2.1
    obtain ⟨hreach, hnext⟩ := hi.above (u :: us) x ys (hs.trans hus) (by simp [hxs.2.1, hxs.2.2]) hx' hxl
    refine ⟨?_, ?_⟩
    · intro y hy
      rcases List.mem_append.mp hy with hy | hy
      · exact (hreach u (List.mem_cons_self ..)).snoc (edge_of_pushed hy).1
      · exact hreach y hy
    · intro b hb
      rcases hnext b hb with hb | hb
      · exact .inl (List.mem_cons_of_mem _ hb)
      · exact .inr (List.mem_append_right _ hb)

theorem Inv.enter (hi : Inv g s) (hg : g.WellFormed) (hs : s.stack = a :: rest) (ha : a ∉ s.entered)
    (hl : (a, a) ∉ g.edges) : Inv g (s.enter g a rest) := by
  have han : a ∈ g.nodes := hi.stack_nodes a (by simp [hs])
  refine ⟨hi.left_nodup, fun x hx => List.mem_cons_of_mem _ (hi.left_entered x hx), ?_, ?_, ?_, ?_, ?_, hi.back⟩
  · intro x hx
    rcases List.mem_cons.mp hx with rfl | hx
    · exact han
    · exact hi.entered_nodes x hx
  · intro x hx
    rcases List.mem_append.mp hx with hx | hx
    · exact hg.target a x (edge_of_pushed hx).1
    · exact hi.stack_nodes x (hs ▸ hx)
  · intro x hx
    rcases List.mem_cons.mp hx with rfl | hx
    · exact hl
    · exact hi.loopless x hx
  · intro x hx hxl
    rcases List.mem_cons.mp hx with rfl | hx
    · exact List.mem_append_right _ (List.mem_cons_self ..)
    · exact List.mem_append_right _ (hs ▸ hi.open_waits x hx hxl)
  · intro xs x ys hsplit hxs hx hxl
    exact hi.above_enter hs hsplit hxs hx hxl

/-! ## The first pass -/

/-- How many rounds the stack can take: one for each entry, one for each node still to be entered, and one for
    each edge out of such a node. -/
def measure (g : Digraph α) (s : Exploration α) : Nat :=
  s.stack.length + g.nodes.countP (· ∉ s.entered) + g.edges.countP (·.1 ∉ s.entered)

/-- Entering a node puts an entry on the stack for each of its edges, and takes the node and these edges from what
    is still to be entered. -/
theorem measure_enter_lt (hs : s.stack = a :: rest) (han : a ∈ g.nodes) (ha : a ∉ s.entered) :
    (s.enter g a rest).measure g < s.measure g := by
  have hnodes : g.nodes.countP (· ∉ s.entered) = g.nodes.countP (· = a) + g.nodes.countP (· ∉ a :: s.entered) :=
    Walk.countP_not_mem_eq id g.nodes ha
  have hedges := Walk.countP_not_mem_eq Prod.fst g.edges ha
  have hpos : 0 < g.nodes.countP (· = a) := List.countP_pos_iff.mpr ⟨a, han, by simp⟩
  have hpushed : ((g.successors a).filter (· ∉ a :: s.entered)).length ≤ g.edges.countP (·.1 = a) := by
    have : (g.successors a).length = g.edges.countP (·.1 = a) := by
      rw [Digraph.successors, List.length_map, List.countP_eq_length_filter]
    exact this ▸ List.length_filter_le ..
  show ((g.successors a).filter (· ∉ a :: s.entered) ++ a :: rest).length + g.nodes.countP (· ∉ a :: s.entered)
    + g.edges.countP (·.1 ∉ a :: s.entered) < s.stack.length + g.nodes.countP (· ∉ s.entered)
    + g.edges.countP (·.1 ∉ s.entered)
  rw [hnodes, hedges, hs, List.length_append]
  omega

/-- Given enough rounds, the stack is worked off, unless a node with an edge to itself comes up. -/
theorem settle_spec (hg : g.WellFormed) (n : Nat) (hi : Inv g s) (hn : s.measure g ≤ n) :
    (∀ e, settle g.successors n s = .error e → (e, e) ∈ g.edges) ∧
      ∀ s', settle g.successors n s = .ok s' → Settled g s s' := by
  induction n generalizing s with
  | zero =>
    have hs : s.stack = [] := List.eq_nil_of_length_eq_zero (by unfold measure at hn; omega)
    refine ⟨by simp [settle], fun s' h => ?_⟩
    simp only [settle, Except.ok.injEq] at h
    exact h ▸ .of_empty hi hs
  | succ n ih =>
    -- the stack after a round that takes the top entry off: all that was on it waits or has been entered
    have hpop : ∀ {a rest left}, s.stack = a :: rest → a ∈ s.entered → Inv g { s with stack := rest, left := left } →
        (∀ e, settle g.successors n { s with stack := rest, left := left } = .error e → (e, e) ∈ g.edges) ∧
          ∀ s', settle g.successors n { s with stack := rest, left := left } = .ok s' → Settled g s s' := by
      intro a rest left hs ha hi'
      obtain ⟨herr, hok⟩ := ih hi' (by simp only [measure, hs, List.length_cons] at hn ⊢; omega)
      refine ⟨herr, fun s' h => ?_⟩
      obtain ⟨hinv, hstack, hkept, hentered⟩ := hok s' h
      refine ⟨hinv, hstack, hkept, fun x hx => ?_⟩
      rw [hs] at hx
      rcases List.mem_cons.mp hx with rfl | hx
      · exact hkept x ha
      · exact hentered x hx
    unfold settle
    split
    · rename_i hs
      refine ⟨by simp, fun s' h => ?_⟩
      simp only [Except.ok.injEq] at h
      exact h ▸ .of_empty hi hs
    · rename_i a rest hs
      split
      · rename_i ha
        split
        · rename_i hl
          refine ⟨fun e h => ?_, by simp⟩
          simp only [Except.error.injEq] at h
          exact h ▸ Digraph.mem_successors.mp hl
        · rename_i hl
          have han : a ∈ g.nodes := hi.stack_nodes a (by simp [hs])
          have hlt := measure_enter_lt hs han ha
          obtain ⟨herr, hok⟩ := ih (hi.enter hg hs ha fun h => hl (Digraph.mem_successors.mpr h)) (by omega)
          refine ⟨herr, fun s' h => ?_⟩
          obtain ⟨hinv, hstack, hkept, hentered⟩ := hok s' h
          exact ⟨hinv, hstack, fun x hx => hkept x (List.mem_cons_of_mem _ hx),
            fun x hx => hentered x (List.mem_append_right _ (hs ▸ hx))⟩
      · rename_i ha
        have ha : a ∈ s.entered := Decidable.not_not.mp ha
        split
        · rename_i hal
          exact hpop hs ha (hi.drop hs hal)
        · rename_i hal
          exact hpop hs ha (hi.leave hs ha hal)

theorem exploreFrom_spec (hg : g.WellFormed) (roots : List α) (hr : ∀ a ∈ roots, a ∈ g.nodes) (hi : Inv g s)
    (hs : s.stack = []) :
    (∀ e, exploreFrom g.successors g.passFuel roots s = .error e → (e, e) ∈ g.edges) ∧
      ∀ s', exploreFrom g.successors g.passFuel roots s = .ok s' →
        Inv g s' ∧ s'.stack = [] ∧ (∀ a ∈ s.entered, a ∈ s'.entered) ∧ ∀ a ∈ roots, a ∈ s'.entered := by
  induction roots generalizing s with
  | nil =>
    refine ⟨by simp [exploreFrom], fun s' h => ?_⟩
    simp only [exploreFrom, Except.ok.injEq] at h
    subst h
    exact ⟨hi, hs, fun _ h => h, by simp⟩
  | cons a roots ih =>
    have hroots : ∀ b ∈ roots, b ∈ g.nodes := fun b hb => hr b (List.mem_cons_of_mem _ hb)
    unfold exploreFrom
    split
    · rename_i ha
      obtain ⟨herr, hok⟩ := ih hroots hi hs
      refine ⟨herr, fun s' h => ?_⟩
      obtain ⟨hinv, hstack, hkept, hentered⟩ := hok s' h
      refine ⟨hinv, hstack, hkept, fun b hb => ?_⟩
      rcases List.mem_cons.mp hb with rfl | hb
      · exact hkept b ha
      · exact hentered b hb
    · rename_i ha
      have hfuel : ({ s with stack := [a] } : Exploration α).measure g ≤ g.passFuel := by
        have hnodes := List.countP_le_length (p := (· ∉ s.entered)) (l := g.nodes)
        have hedges := List.countP_le_length (p := fun e => e.1 ∉ s.entered) (l := g.edges)
        simp only [measure, Digraph.passFuel, List.length_singleton] at hnodes hedges ⊢
        omega
      obtain ⟨herr, hok⟩ := settle_spec hg g.passFuel (hi.start hs (hr a (List.mem_cons_self ..))) hfuel
      split
      · rename_i e he
        refine ⟨fun e' h => ?_, by simp⟩
        simp only [Except.error.injEq] at h
        exact h ▸ herr e he
      · rename_i s₁ h₁
        obtain ⟨hinv₁, hstack₁, hkept₁, hentered₁⟩ := hok s₁ h₁
        obtain ⟨herr', hok'⟩ := ih hroots hinv₁ hstack₁
        refine ⟨herr', fun s' h => ?_⟩
        obtain ⟨hinv, hstack, hkept, hentered⟩ := hok' s' h
        refine ⟨hinv, hstack, fun b hb => hkept b (hkept₁ b hb), fun b hb => ?_⟩
        rcases List.mem_cons.mp hb with rfl | hb
        · exact hkept b (hentered₁ b (List.mem_singleton.mpr rfl))
        · exact hentered b hb

end Exploration

namespace Digraph

variable {α : Type} [DecidableEq α] {g : Digraph α} {order : List α}

/-- Each node once, and every edge points forward. -/
structure TopologicalOrder (g : Digraph α) (order : List α) : Prop where
  nodup : order.Nodup
  mem : ∀ a, a ∈ order ↔ a ∈ g.nodes
  before : ∀ a b, (a, b) ∈ g.edges → Before order a b

/-- The order that the first pass leaves for the second. -/
structure Leaving (g : Digraph α) (order : List α) : Prop where
  nodup : order.Nodup
  mem : ∀ a, a ∈ order ↔ a ∈ g.nodes
  loopless : ∀ a, (a, a) ∉ g.edges
  back : ∀ xs a ys, order = xs ++ a :: ys → ∀ b, (a, b) ∈ g.edges → b ∈ ys ∨ g.Reaches b a

theorem leavingOrder_spec (hg : g.WellFormed) :
    (∀ e, g.leavingOrder = .error e → (e, e) ∈ g.edges) ∧ ∀ order, g.leavingOrder = .ok order → g.Leaving order := by
  have hinit : Exploration.Inv g {} := ⟨List.nodup_nil, by simp, by simp, by simp, by simp, by simp, by simp, by simp⟩
  obtain ⟨herr, hok⟩ := Exploration.exploreFrom_spec hg g.nodes (fun _ h => h) hinit rfl
  unfold leavingOrder
  cases hx : Exploration.exploreFrom g.successors g.passFuel g.nodes {} with
  | error e =>
    refine ⟨fun e' h => ?_, by simp [Except.map]⟩
    simp only [Except.map, Except.error.injEq] at h
    exact h ▸ herr e hx
  | ok s =>
    refine ⟨by simp [Except.map], fun order h => ?_⟩
    simp only [Except.map, Except.ok.injEq] at h
    subst h
    obtain ⟨hinv, hstack, -, hentered⟩ := hok s hx
    refine ⟨hinv.left_nodup, fun a => ⟨fun ha => hinv.entered_nodes a (hinv.left_entered a ha), fun ha => ?_⟩,
      fun a ha => hinv.loopless a (hentered a (hg.source a a ha)) ha, hinv.back⟩
    by_cases hal : a ∈ s.left
    · exact hal
    · have := hinv.open_waits a (hentered a ha) hal
      simp [hstack] at this

/-! ## The second pass -/

theorem findBackEdge_spec (order seen : List α) (hn : order.Nodup) (hd : ∀ a ∈ order, a ∉ seen) :
    (∀ b, g.findBackEdge order seen = some b →
      ∃ xs a ys, order = xs ++ a :: ys ∧ (b, a) ∈ g.edges ∧ b ∉ xs ∧ b ≠ a ∧ b ∉ seen) ∧
    (g.findBackEdge order seen = none →
      ∀ xs a ys, order = xs ++ a :: ys → ∀ b, (b, a) ∈ g.edges → b ∈ xs ∨ b = a ∨ b ∈ seen) := by
  induction order generalizing seen with
  | nil => simp [findBackEdge]
  | cons c order ih =>
    obtain ⟨hcn, hn⟩ := List.nodup_cons.mp hn
    have hc : c ∉ seen := hd c (List.mem_cons_self ..)
    obtain ⟨hsome, hnone⟩ := ih (c :: seen) hn (by
      intro a ha
      rw [List.mem_cons, not_or]
      exact ⟨fun h => hcn (h ▸ ha), hd a (List.mem_cons_of_mem _ ha)⟩)
    have htake : Walk.take g.predecessors seen [c]
        = some (c, ⟨(g.predecessors c).filter (· ∉ c :: seen) ++ [], c :: seen⟩) := by simp [Walk.take, hc]
    unfold findBackEdge
    simp only [htake]
    cases hnext : Walk.next g.predecessors ⟨(g.predecessors c).filter (· ∉ c :: seen) ++ [], c :: seen⟩ with
    | none =>
      refine ⟨?_, ?_⟩
      · intro b h
        obtain ⟨xs, a, ys, rfl, hb, hbx, hba, hbs⟩ := hsome b h
        simp only [List.mem_cons, not_or] at hbs
        exact ⟨c :: xs, a, ys, rfl, hb, by simp [hbs.1, hbx], hba, hbs.2⟩
      · intro h xs a ys hsplit b hb
        cases xs with
        | nil =>
          -- every predecessor of `c` is `c` itself or has been passed
          simp only [List.nil_append, List.cons.injEq] at hsplit
          obtain ⟨rfl, -⟩ := hsplit
          by_cases hbs : b ∈ c :: seen
          · exact .inr (List.mem_cons.mp hbs)
          · have hbw : b ∈ (g.predecessors c).filter (· ∉ c :: seen) ++ [] := by
              rw [List.append_nil]
              exact List.mem_filter.mpr ⟨mem_predecessors.mpr hb, by simpa using hbs⟩
            exact absurd (Walk.take_eq_none.mp hnext b hbw) hbs
        | cons x xs =>
          simp only [List.cons_append, List.cons.injEq] at hsplit
          obtain ⟨rfl, rfl⟩ := hsplit
          rcases hnone h xs a ys rfl b hb with h | h | h
          · exact .inl (List.mem_cons_of_mem _ h)
          · exact .inr (.inl h)
          · rcases List.mem_cons.mp h with rfl | h
            · exact .inl (List.mem_cons_self ..)
            · exact .inr (.inr h)
    | some e =>
      obtain ⟨b, w⟩ := e
      refine ⟨fun b' h => ?_, by simp⟩
      simp only [Option.some.injEq] at h
      subst h
      have hs := Walk.next_stepped hnext
      have hb := hs.waiting
      rw [List.append_nil] at hb
      have hfresh := hs.fresh
      simp only [List.mem_cons, not_or] at hfresh
      exact ⟨[], c, order, rfl, mem_predecessors.mp (List.mem_filter.mp hb).1, by simp, hfresh.1, hfresh.2⟩

/-! ## The sort -/

theorem Leaving.topologicalOrder (hl : g.Leaving order) (hg : g.WellFormed) (hb : g.findBackEdge order [] = none) :
    g.TopologicalOrder order := by
  refine ⟨hl.nodup, hl.mem, fun a b he => ?_⟩
  obtain ⟨xs, ys, rfl, -⟩ := List.eq_append_cons_of_mem ((hl.mem b).mpr (hg.target a b he))
  rcases (findBackEdge_spec _ [] hl.nodup (by simp)).2 hb xs b ys rfl a he with ha | rfl | ha
  · exact .of_mem_front ha
  · exact absurd he (hl.loopless a)
  · simp at ha

/-- A node that is left before one of its predecessors is reached from it and leads back to it. -/
theorem Leaving.reaches_self (hl : g.Leaving order) (hg : g.WellFormed) {b : α}
    (hb : g.findBackEdge order [] = some b) : g.Reaches b b := by
  obtain ⟨xs, a, ys, rfl, he, hbx, hba, -⟩ := (findBackEdge_spec _ [] hl.nodup (by simp)).1 b hb
  have hbo : b ∈ xs ++ a :: ys := (hl.mem b).mpr (hg.source b a he)
  have hby : b ∈ ys := by simpa [hbx, hba] using hbo
  obtain ⟨us, vs, rfl, -⟩ := List.eq_append_cons_of_mem hby
  have hback := hl.back (xs ++ a :: us) b vs (by simp) a he
  have hav : a ∉ vs := by
    have := hl.nodup
    simp only [List.nodup_append, List.nodup_cons, List.mem_append, List.mem_cons, not_or] at this
    exact this.2.1.1.2.2
  exact .step he (hback.resolve_left hav)

theorem topologicalSort_spec (hg : g.WellFormed) :
    (∀ a, g.topologicalSort = .error a → g.Reaches a a) ∧
      ∀ order, g.topologicalSort = .ok order → g.TopologicalOrder order := by
  obtain ⟨herr, hok⟩ := leavingOrder_spec hg
  unfold topologicalSort
  cases hl : g.leavingOrder with
  | error a =>
    refine ⟨fun b h => ?_, by simp⟩
    simp only [Except.error.injEq] at h
    exact h ▸ .edge (herr a hl)
  | ok order =>
    have hleft := hok order hl
    simp only
    cases hb : g.findBackEdge order [] with
    | none =>
      refine ⟨by simp, fun order' h => ?_⟩
      simp only [Except.ok.injEq] at h
      exact h ▸ hleft.topologicalOrder hg hb
    | some b =>
      refine ⟨fun b' h => ?_, by simp⟩
      simp only [Except.error.injEq] at h
      exact h ▸ hleft.reaches_self hg hb

theorem exists_topologicalSort_iff (hg : g.WellFormed) : (∃ order, g.topologicalSort = .ok order) ↔ g.Acyclic := by
  obtain ⟨herr, hok⟩ := topologicalSort_spec hg
  constructor
  · rintro ⟨order, h⟩
    have ho := hok order h
    exact .of_before ho.nodup ho.before
  · intro ha
    cases h : g.topologicalSort with
    | ok order => exact ⟨order, rfl⟩
    | error a => exact absurd (herr a h) (ha a)

end Digraph

end BuildGraph

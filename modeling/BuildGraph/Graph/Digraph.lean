/-
  BuildGraph.Graph.Digraph: directed graphs with nodes and edges in the order they were added.

  `Reaches g a b` says that at least one edge leads from `a` to `b`. A node that reaches itself
  lies on a cycle.
-/

namespace BuildGraph

/-- Nodes and edges, oldest first. -/
structure Digraph (α : Type) where
  nodes : List α := []
  edges : List (α × α) := []
  deriving Repr

namespace Digraph

variable {α : Type}

/-- `b` is the end of a path of one or more edges from `a`. -/
inductive Reaches (g : Digraph α) : α → α → Prop
  | edge {a b : α} : (a, b) ∈ g.edges → Reaches g a b
  | step {a b c : α} : (a, b) ∈ g.edges → Reaches g b c → Reaches g a c

/-- No node reaches itself. -/
def Acyclic (g : Digraph α) : Prop := ∀ a, ¬ g.Reaches a a

variable [DecidableEq α]

/-- The targets of the edges out of `a`, oldest edge first. -/
def successors (g : Digraph α) (a : α) : List α := (g.edges.filter (·.1 = a)).map (·.2)

/-- The sources of the edges into `a`, oldest edge first. -/
def predecessors (g : Digraph α) (a : α) : List α := (g.edges.filter (·.2 = a)).map (·.1)

theorem mem_successors {g : Digraph α} {a b : α} : b ∈ g.successors a ↔ (a, b) ∈ g.edges := by
  simp [successors]

theorem mem_predecessors {g : Digraph α} {a b : α} : a ∈ g.predecessors b ↔ (a, b) ∈ g.edges := by
  simp [predecessors]

/-- `edges` with one more edge at the end; an edge that is there already stays where it is. -/
def connect (edges : List (α × α)) (a b : α) : List (α × α) :=
  if (a, b) ∈ edges then edges else edges ++ [(a, b)]

theorem mem_connect {edges : List (α × α)} {a b : α} {e : α × α} :
    e ∈ connect edges a b ↔ e ∈ edges ∨ e = (a, b) := by
  unfold connect
  split
  · rename_i h
    exact ⟨.inl, fun h' => h'.elim id fun h' => h' ▸ h⟩
  · simp

end Digraph

end BuildGraph

/-
  BuildGraph.Graph.TopologicalSort: nodes ordered so that every edge points forward.

  The first pass explores the graph depth first and lists each node when all it leads to is
  listed, latest first; a node with an edge to itself ends it. On a graph without cycles this
  list is the order. The second pass finds out: it goes through the list and looks back along
  the edges from each node. In a proper order all predecessors have been passed already; one
  that has not lies on a cycle.
-/

import BuildGraph.Graph.Walk

namespace BuildGraph

/-- The state of the first pass: the nodes being explored, the nodes entered, and the nodes left,
    the latest first. -/
structure Exploration (α : Type) where
  stack : List α := []
  entered : List α := []
  left : List α := []
  deriving Repr

namespace Exploration

variable {α : Type} [DecidableEq α]

/-- Works the stack off. A node is entered when it first comes up, and left when it comes up again after
    all that was put above it; the error is a node that leads to itself. -/
def settle (follow : α → List α) : Nat → Exploration α → Except α (Exploration α)
  | 0, s => .ok s
  | n + 1, s =>
    match s.stack with
    | [] => .ok s
    | a :: rest =>
      if a ∉ s.entered then
        if a ∈ follow a then .error a
        else settle follow n
          { s with
            stack := (follow a).filter (· ∉ a :: s.entered) ++ a :: rest
            entered := a :: s.entered }
      else if a ∈ s.left then settle follow n { s with stack := rest }
      else settle follow n { s with stack := rest, left := a :: s.left }

/-- Explores from each of `roots` that has not been entered before its turn. -/
def exploreFrom (follow : α → List α) (fuel : Nat) : List α → Exploration α → Except α (Exploration α)
  | [], s => .ok s
  | a :: roots, s =>
    if a ∈ s.entered then exploreFrom follow fuel roots s
    else match settle follow fuel { s with stack := [a] } with
      | .error e => .error e
      | .ok s' => exploreFrom follow fuel roots s'

end Exploration

namespace Digraph

variable {α : Type} [DecidableEq α]

/-- Enough rounds for one pass: every node is entered once, and each entry on the stack is a root or
    stands for an edge, and comes off once. -/
def passFuel (g : Digraph α) : Nat := 2 * g.nodes.length + g.edges.length + 1

/-- The nodes in the reverse of the order in which exploration leaves them. -/
def leavingOrder (g : Digraph α) : Except α (List α) :=
  (Exploration.exploreFrom g.successors g.passFuel g.nodes {}).map (·.left)

/-- The first node found behind one of `order` that has not been passed. -/
def findBackEdge (g : Digraph α) : List α → List α → Option α
  | [], _ => none
  | a :: order, seen =>
    match Walk.take g.predecessors seen [a] with
    | none => g.findBackEdge order seen
    | some (_, w) =>
      match w.next g.predecessors with
      | none => g.findBackEdge order w.seen
      | some (b, _) => some b

/-- The nodes in an order in which every edge points forward; if there is none, a node on a cycle. -/
def topologicalSort (g : Digraph α) : Except α (List α) :=
  match g.leavingOrder with
  | .error a => .error a
  | .ok order =>
    match g.findBackEdge order [] with
    | some a => .error a
    | none => .ok order

end Digraph

end BuildGraph

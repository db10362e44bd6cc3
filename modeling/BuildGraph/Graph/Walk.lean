/-
  BuildGraph.Graph.Walk: depth-first walks with an explicit stack.

  A walk keeps the nodes it may turn to, the next one on top, and the nodes it has met. A node
  is met when it is taken from the stack; the nodes it leads to go on top, the first of them
  uppermost, and a node met twice is passed over. So a walk meets the nodes in depth-first
  preorder, each once.
-/

import BuildGraph.Graph.Digraph

namespace BuildGraph

/-- A walk under way. -/
structure Walk (α : Type) where
  stack : List α
  seen : List α
  deriving Repr

namespace Walk

variable {α : Type} [DecidableEq α]

/-- Takes the next node that has not been met from `stack`. -/
def take (follow : α → List α) (seen : List α) : List α → Option (α × Walk α)
  | [] => none
  | a :: rest =>
    if a ∈ seen then take follow seen rest
    else some (a, ⟨(follow a).filter (· ∉ a :: seen) ++ rest, a :: seen⟩)

/-- The next node of a walk, and the walk after it. -/
def next (follow : α → List α) (w : Walk α) : Option (α × Walk α) := take follow w.seen w.stack

/-- The nodes still to be met, at most `n` of them. -/
def run (follow : α → List α) : Nat → Walk α → List α
  | 0, _ => []
  | n + 1, w =>
    match w.next follow with
    | none => []
    | some (a, w') => a :: run follow n w'

end Walk

namespace Digraph

variable {α : Type} [DecidableEq α]

/-- `start` and all it reaches, depth first, the targets of older edges before those of newer ones.
    Every node met beyond the first is the target of an edge, which bounds the walk. -/
def preorder (g : Digraph α) (start : α) : List α :=
  Walk.run g.successors (g.nodes.length + g.edges.length + 1) ⟨[start], []⟩

/-- Whether `b` is `a` or can be reached from it. -/
def connects (g : Digraph α) (a b : α) : Bool := (g.preorder a).contains b

end Digraph

end BuildGraph

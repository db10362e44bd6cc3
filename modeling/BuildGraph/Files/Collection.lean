/-
  BuildGraph.Files.Collection: ordered collections of files, each element once.

  An element names files without listing them: the output of a source set, a directory, or the
  files a configuration leads to. Adding an element that is there already changes nothing, and
  directories count as the same when their locations are equal by component.
-/

import BuildGraph.Distinct
import BuildGraph.Files.Location

namespace BuildGraph

/-- What a file collection is made of. -/
inductive FileElement where
  /-- What a source set compiles to: its classes directories and its resources directory. -/
  | output (sourceSet : String)
  /-- One directory. -/
  | dir (location : Location)
  /-- The files declared on a configuration and on all it extends. -/
  | configuration (name : String)
  deriving Repr, BEq

namespace FileElement

instance : EquivBEq FileElement where
  rfl := by
    intro a
    cases a <;> simp [BEq.beq, instBEqFileElement.beq]
    exact BEq.refl (α := Location) _
  symm := by
    intro a b h
    cases a <;> cases b <;> simp_all [BEq.beq, instBEqFileElement.beq]
    exact BEq.symm (α := Location) h
  trans := by
    intro a b c h h'
    cases a <;> cases b <;> cases c <;> simp_all [BEq.beq, instBEqFileElement.beq]
    exact BEq.trans (α := Location) h h'

end FileElement

/-- Files in order, each element once. -/
structure FileCollection where
  elements : List FileElement := []
  deriving Repr, BEq, Inhabited

namespace FileCollection

def empty : FileCollection := ⟨[]⟩

def of (e : FileElement) : FileCollection := ⟨[e]⟩

def output (sourceSet : String) : FileCollection := .of (.output sourceSet)

def dir (location : Location) : FileCollection := .of (.dir location)

def configuration (name : String) : FileCollection := .of (.configuration name)

/-- `c` with `e` at the end, unless it is there already. -/
def add (c : FileCollection) (e : FileElement) : FileCollection := ⟨Distinct.add c.elements e⟩

/-- The elements of `a`, then those of `b` that are new. -/
def plus (a b : FileCollection) : FileCollection := ⟨Distinct.addAll a.elements b.elements⟩

def ofList (es : List FileElement) : FileCollection := ⟨Distinct.ofList es⟩

def contains (c : FileCollection) (e : FileElement) : Bool := c.elements.contains e

def isEmpty (c : FileCollection) : Bool := c.elements.isEmpty

end FileCollection

end BuildGraph

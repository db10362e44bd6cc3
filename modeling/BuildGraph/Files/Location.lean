/-
  BuildGraph.Files.Location: directories of a project, made into paths on demand.

  A location lies below the project directory or below the build directory. The build
  directory may still change while a build is being configured, so a location stays symbolic
  until `Layout.resolve` turns it into a path.
-/

import BuildGraph.Path

namespace BuildGraph

/-- A directory below the project directory or below the build directory. -/
inductive Location where
  | project (path : Path)
  | build (path : Path)
  deriving Repr, BEq, Ord

namespace Location

/-- The location as written in descriptions. -/
def text : Location → String
  | .project p => p.text
  | .build p => "$buildDir/" ++ p.text

theorem beq_iff {a b : Location} : (a == b) = true ↔
    (∃ p q, a = .project p ∧ b = .project q ∧ p == q) ∨ (∃ p q, a = .build p ∧ b = .build q ∧ p == q) := by
  cases a <;> cases b <;> simp [BEq.beq, instBEqLocation.beq]

instance : EquivBEq Location where
  rfl := by intro a; cases a <;> simp [beq_iff]
  symm := by
    intro a b h
    cases a <;> cases b <;> simp_all [beq_iff, BEq.comm]
  trans := by
    intro a b c h h'
    cases a <;> cases b <;> cases c <;> simp_all [beq_iff]
    · exact BEq.trans h h'
    · exact BEq.trans h h'

end Location

/-- Where a project lies and where it builds to. -/
structure Layout where
  projectDir : Path
  /-- Relative to the project directory unless absolute. -/
  buildDir : Path
  deriving Repr, Inhabited

/-- The path of a location. -/
def Layout.resolve (l : Layout) : Location → Path
  | .project p => l.projectDir.join p
  | .build p => (l.projectDir.join l.buildDir).join p

end BuildGraph

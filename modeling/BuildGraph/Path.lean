/-
  BuildGraph.Path: slash-separated paths, kept as written and compared by component.

  A path is its text. Two paths are equal (`==`) when they have the same components: repeated
  and trailing slashes and `.` are not components, except a `.` that opens a relative path;
  `..` is a component and is never folded. Paths are ordered component by component, the root
  before `.` before `..` before names.

  - `Path.join_of_absolute`: joining an absolute path gives that path.
  - `Path.beq_iff`: equality is equality of components, hence an equivalence.
-/

namespace BuildGraph

/-- A step of a path. The order of the constructors is the order of paths. -/
inductive Component where
  | root
  | current
  | parent
  | name (text : String)
  deriving DecidableEq, Repr, Ord

/-- A path, with the text it was written with. -/
structure Path where
  text : String
  deriving Repr, Inhabited

namespace Path

/-- The pieces of `cs` between slashes; never empty. -/
def pieces : List Char → List (List Char)
  | [] => [[]]
  | c :: cs =>
    if c = '/' then [] :: pieces cs
    else match pieces cs with
      | [] => [[c]]
      | p :: ps => (c :: p) :: ps

/-- What a piece after the first adds to the path. -/
def step : List Char → Option Component
  | [] => none
  | ['.'] => none
  | ['.', '.'] => some .parent
  | p => some (.name (String.ofList p))

/-- The components of the path written `cs`. -/
def componentsOf (cs : List Char) : List Component :=
  match cs, pieces cs with
  | '/' :: _, ps => .root :: ps.filterMap step
  | _, ['.'] :: ps => .current :: ps.filterMap step
  | _, ps => ps.filterMap step

def components (p : Path) : List Component := componentsOf p.text.toList

def isAbsolute (p : Path) : Bool := p.text.toList.head? == some '/'

/-- Whether a path joined to `p` needs a slash in between. -/
def isOpen (p : Path) : Bool := p.text.toList.getLast? != none && p.text.toList.getLast? != some '/'

/-- `b` seen from `a`: an absolute `b` stands for itself. -/
def join (a b : Path) : Path :=
  if b.isAbsolute then b
  else if a.isOpen then ⟨a.text ++ "/" ++ b.text⟩
  else ⟨a.text ++ b.text⟩

instance : BEq Path := ⟨fun a b => a.components == b.components⟩

instance : Ord Path := ⟨fun a b => compare a.components b.components⟩

theorem beq_iff {a b : Path} : (a == b) = true ↔ a.components = b.components :=
  beq_iff_eq (α := List Component)

instance : EquivBEq Path where
  rfl := beq_iff.mpr rfl
  symm h := beq_iff.mpr (beq_iff.mp h).symm
  trans h h' := beq_iff.mpr ((beq_iff.mp h).trans (beq_iff.mp h'))

theorem join_of_absolute {a b : Path} (h : b.isAbsolute = true) : a.join b = b := by simp [join, h]

end Path

end BuildGraph

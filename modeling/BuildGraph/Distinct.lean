/-
  BuildGraph.Distinct: lists that keep the first of equal entries.

  `add` appends an entry unless an equal one is there, `addAll` adds a list one entry after
  another. "Equal" is the entry type's `==`, which may be coarser than identity: of several
  equal entries the first one given is the one that stays, unchanged.

  - `addAll_append`: adding a list in two parts is adding it whole.
  - `contains_add` / `contains_addAll`: exactly the entries given are found again.
-/

namespace BuildGraph.Distinct

variable {α : Type} [BEq α]

/-- `xs` with `x` at the end, unless an equal entry is already there. -/
def add (xs : List α) (x : α) : List α := if xs.contains x then xs else xs ++ [x]

/-- Adds the entries of `ys` to `xs` in order. -/
def addAll (xs ys : List α) : List α := ys.foldl add xs

/-- The entries of `xs`, each equality class by its first. -/
def ofList (xs : List α) : List α := addAll [] xs

@[simp] theorem addAll_nil (xs : List α) : addAll xs [] = xs := rfl

@[simp] theorem addAll_cons (xs : List α) (y : α) (ys : List α) : addAll xs (y :: ys) = addAll (add xs y) ys := rfl

theorem addAll_append (xs ys zs : List α) : addAll xs (ys ++ zs) = addAll (addAll xs ys) zs :=
  List.foldl_append

theorem contains_add [EquivBEq α] (xs : List α) (x y : α) :
    (add xs x).contains y = (xs.contains y || x == y) := by
  unfold add
  split
  · rename_i h
    cases hy : x == y
    · simp
    · obtain ⟨a, ha, hx⟩ := List.contains_iff_exists_mem_beq.mp h
      simp [List.contains_iff_exists_mem_beq.mpr ⟨a, ha, BEq.trans (BEq.symm hy) hx⟩]
  · simp [BEq.comm]

theorem contains_addAll [EquivBEq α] (xs ys : List α) (y : α) :
    (addAll xs ys).contains y = (xs.contains y || ys.contains y) := by
  induction ys generalizing xs with
  | nil => simp
  | cons z zs ih => simp [ih, contains_add, Bool.or_assoc, BEq.comm (a := z)]

end BuildGraph.Distinct

/-
  BuildGraph.Proofs.Named: lists of entries that have names.

  An entry is found under its name. Where no name is given twice there is one entry for each, and
  changing the entries of one name leaves all others as they are.
-/

import Mathlib.Data.List.Nodup

namespace BuildGraph.Named

variable {α : Type} {nameOf : α → String} {entries : List α} {name : String} {x y : α}

theorem name_of_find? (h : entries.find? (nameOf · == name) = some x) : nameOf x = name := by
  simpa using List.find?_some h

theorem exists_find?_iff : (∃ x, entries.find? (nameOf · == name) = some x) ↔ name ∈ entries.map nameOf := by
  rw [← Option.isSome_iff_exists, List.find?_isSome]
  simp

theorem find?_eq_none_iff : entries.find? (nameOf · == name) = none ↔ name ∉ entries.map nameOf := by
  rw [← exists_find?_iff, ← Option.isSome_iff_exists, Option.not_isSome_iff_eq_none]

/-- Where no name is given twice, an entry is found under its name. -/
theorem find?_of_mem (hn : (entries.map nameOf).Nodup) (hx : x ∈ entries) :
    entries.find? (nameOf · == nameOf x) = some x := by
  obtain ⟨y, hy⟩ := exists_find?_iff.mpr (List.mem_map.mpr ⟨x, hx, rfl⟩)
  rw [hy, List.inj_on_of_nodup_map hn (List.mem_of_find?_eq_some hy) hx (name_of_find? hy)]

/-- An entry with a new name is found under it, and what was there is found as before. -/
theorem find?_concat (hnew : nameOf x ∉ entries.map nameOf) (name : String) :
    (entries ++ [x]).find? (nameOf · == name) = if name = nameOf x then some x else entries.find? (nameOf · == name) := by
  rw [List.find?_append, List.find?_singleton]
  by_cases hname : name = nameOf x
  · subst hname
    rw [if_pos rfl, find?_eq_none_iff.mpr hnew]
    simp
  · simp [hname, Ne.symm hname]

/-! ## Changing the entries of one name -/

/-- Changes the entries called `name`. -/
abbrev change (nameOf : α → String) (name : String) (f : α → α) (entries : List α) : List α :=
  entries.map fun x => if nameOf x = name then f x else x

variable {f : α → α}

theorem map_map (hf : ∀ x, nameOf (f x) = nameOf x) : (entries.map f).map nameOf = entries.map nameOf := by
  rw [List.map_map]
  exact List.map_congr_left fun x _ => hf x

/-- If every entry keeps its name, what is found is the entry that was found before, changed. -/
theorem find?_map (hf : ∀ x, nameOf (f x) = nameOf x) (name : String) :
    (entries.map f).find? (nameOf · == name) = (entries.find? (nameOf · == name)).map f := by
  have hname : ((nameOf · == name) ∘ f) = (nameOf · == name) := by
    funext x
    show (nameOf (f x) == name) = (nameOf x == name)
    rw [hf x]
  rw [List.find?_map, hname]

theorem name_ite (hf : ∀ x, nameOf (f x) = nameOf x) (name : String) (x : α) :
    nameOf (if nameOf x = name then f x else x) = nameOf x := by
  split
  · exact hf x
  · rfl

theorem map_change (hf : ∀ x, nameOf (f x) = nameOf x) :
    (change nameOf name f entries).map nameOf = entries.map nameOf := map_map (name_ite hf name)

theorem find?_change (hf : ∀ x, nameOf (f x) = nameOf x) (other : String) :
    (change nameOf name f entries).find? (nameOf · == other)
      = if other = name then (entries.find? (nameOf · == other)).map f else entries.find? (nameOf · == other) := by
  rw [change, find?_map (name_ite hf name)]
  cases h : entries.find? (nameOf · == other) with
  | none => split <;> rfl
  | some x =>
    have hx : nameOf x = other := name_of_find? h
    simp only [Option.map_some, hx]
    split <;> rfl

theorem mem_change (h : x ∈ change nameOf name f entries) :
    x ∈ entries ∨ ∃ y ∈ entries, nameOf y = name ∧ x = f y := by
  obtain ⟨y, hy, rfl⟩ := List.mem_map.mp h
  split
  · rename_i hn
    exact .inr ⟨y, hy, hn, rfl⟩
  · exact .inl hy

end BuildGraph.Named

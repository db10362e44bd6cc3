/-
  BuildGraph.Attributes: what a configuration asks of the variants of a dependency.

  An attribute set maps keys to values and keeps its keys in order, so that two sets with the
  same content are the same set.

  - `AttributeSet.ext_get?`: a set is determined by what it maps each key to.
  - `AttributeSet.get?_set`: setting a key changes that key and no other.
-/

import BuildGraph.Error

namespace BuildGraph

/-- Keys with their values, the keys strictly increasing. -/
structure AttributeSet where
  entries : List (String × String) := []
  sorted : (entries.map (·.1)).Pairwise (· < ·) := by exact .nil
  deriving Repr, DecidableEq

namespace AttributeSet

def empty : AttributeSet := {}

instance : Inhabited AttributeSet := ⟨empty⟩

/-- Puts `key` with `value` in its place among `entries`, in place of its old value if it has one. -/
def place (key value : String) : List (String × String) → List (String × String)
  | [] => [(key, value)]
  | e :: rest =>
    if key < e.1 then (key, value) :: e :: rest
    else if key = e.1 then (key, value) :: rest
    else e :: place key value rest

theorem mem_place_keys {key value k : String} {entries : List (String × String)}
    (h : k ∈ (place key value entries).map (·.1)) : k = key ∨ k ∈ entries.map (·.1) := by
  induction entries with
  | nil => simpa [place] using h
  | cons e rest ih =>
    unfold place at h
    split at h
    · simpa using h
    · split at h
      · simp only [List.map_cons, List.mem_cons] at h ⊢
        rcases h with h | h
        · exact .inl h
        · exact .inr (.inr h)
      · simp only [List.map_cons, List.mem_cons] at h ⊢
        rcases h with h | h
        · exact .inr (.inl h)
        · rcases ih h with h | h
          · exact .inl h
          · exact .inr (.inr h)

theorem sorted_place {key value : String} {entries : List (String × String)}
    (h : (entries.map (·.1)).Pairwise (· < ·)) : ((place key value entries).map (·.1)).Pairwise (· < ·) := by
  induction entries with
  | nil => simp [place]
  | cons e rest ih =>
    simp only [List.map_cons, List.pairwise_cons] at h
    unfold place
    split
    · rename_i hlt
      simp only [List.map_cons, List.pairwise_cons, List.mem_cons]
      refine ⟨?_, h⟩
      rintro k (rfl | hk)
      · exact hlt
      · exact String.lt_trans hlt (h.1 k hk)
    · rename_i hnlt
      split
      · rename_i heq
        subst heq
        simpa using h
      · rename_i hne
        simp only [List.map_cons, List.pairwise_cons]
        refine ⟨fun k hk => ?_, ih h.2⟩
        rcases mem_place_keys hk with rfl | hk
        · exact String.not_le.mp fun hle => hne (String.le_antisymm (String.not_lt.mp hnlt) hle).symm
        · exact h.1 k hk

theorem lookup_cons (k : String) (e : String × String) (entries : List (String × String)) :
    (e :: entries).lookup k = if k = e.1 then some e.2 else entries.lookup k := by
  obtain ⟨key, value⟩ := e
  by_cases h : k = key
  · simp [h]
  · simp [List.lookup_cons, h, beq_eq_false_iff_ne.mpr h]

theorem lookup_place (key value k : String) (entries : List (String × String)) :
    (place key value entries).lookup k = if k = key then some value else entries.lookup k := by
  induction entries with
  | nil => simp [place]
  | cons e rest ih =>
    unfold place
    split
    · simp [lookup_cons]
    · split
      · rename_i heq
        by_cases hk : k = key <;> simp [lookup_cons, hk, ← heq]
      · rename_i hne
        by_cases hk : k = e.1
        · simp [lookup_cons, hk, Ne.symm hne]
        · simp [lookup_cons, hk, ih]

/-- A key below all keys has no value. -/
theorem lookup_eq_none {k : String} {entries : List (String × String)} (h : ∀ x ∈ entries.map (·.1), k < x) :
    entries.lookup k = none :=
  List.lookup_eq_none_iff.mpr fun e he =>
    bne_iff_ne.mpr fun heq => String.lt_irrefl _ (heq ▸ h e.1 (List.mem_map_of_mem he))

/-- Two lists of entries in order that map every key alike are equal. -/
theorem eq_of_lookup_eq : ∀ {xs ys : List (String × String)}, (xs.map (·.1)).Pairwise (· < ·) →
    (ys.map (·.1)).Pairwise (· < ·) → (∀ k, xs.lookup k = ys.lookup k) → xs = ys
  | [], [], _, _, _ => rfl
  | [], e :: ys, _, _, h => by simpa [lookup_cons] using h e.1
  | e :: xs, [], _, _, h => by simpa [lookup_cons] using h e.1
  | (k, v) :: xs, (l, w) :: ys, hx, hy, h => by
    simp only [List.map_cons, List.pairwise_cons] at hx hy
    have hk : k = l := by
      rcases Decidable.em (k = l) with he | hne
      · exact he
      have hl := h l
      have hk := h k
      rw [lookup_cons, lookup_cons, if_neg (Ne.symm hne), if_pos rfl] at hl
      rw [lookup_cons, lookup_cons, if_neg hne, if_pos rfl] at hk
      rcases Decidable.em (k < l) with hlt | hnlt
      · rw [lookup_eq_none fun x hx => String.lt_trans hlt (hy.1 x hx)] at hk
        exact absurd hk (by simp)
      · have hlt : l < k := String.not_le.mp fun hle => hne (String.le_antisymm hle (String.not_lt.mp hnlt))
        rw [lookup_eq_none fun y hy => String.lt_trans hlt (hx.1 y hy)] at hl
        exact absurd hl (by simp)
    subst hk
    have hv : v = w := by simpa [lookup_cons] using h k
    rw [hv, eq_of_lookup_eq hx.2 hy.2 fun x => ?_]
    rcases Decidable.em (x = k) with rfl | hne
    · rw [lookup_eq_none hx.1, lookup_eq_none hy.1]
    · simpa [lookup_cons, hne] using h x

/-- `s` with `key` mapped to `value`. -/
def set (s : AttributeSet) (key value : String) : AttributeSet := ⟨place key value s.entries, sorted_place s.sorted⟩

def get? (s : AttributeSet) (key : String) : Option String := s.entries.lookup key

theorem get?_set (s : AttributeSet) (key value k : String) :
    (s.set key value).get? k = if k = key then some value else s.get? k := lookup_place key value k s.entries

theorem ext_get? {s t : AttributeSet} (h : ∀ k, s.get? k = t.get? k) : s = t := by
  cases s; cases t
  rename_i xs hx ys hy
  cases eq_of_lookup_eq hx hy h
  rfl

def size (s : AttributeSet) : Nat := s.entries.length

def isEmpty (s : AttributeSet) : Bool := s.entries.isEmpty

/-- The set that results from giving `entries` one after another. -/
def ofList (entries : List (String × String)) : AttributeSet := entries.foldl (fun s e => s.set e.1 e.2) empty

/-- `target` with every entry of `source` on top. -/
def copyTo (source target : AttributeSet) : AttributeSet := source.entries.foldl (fun s e => s.set e.1 e.2) target

/-- The first key for which both sets have a value, but not the same: the key, what `requested` has and
    what `candidate` has. -/
def conflict? (requested candidate : AttributeSet) : Option (String × String × String) :=
  requested.entries.findSome? fun e =>
    match candidate.get? e.1 with
    | some provided => if provided = e.2 then none else some (e.1, e.2, provided)
    | none => none

/-- Every attribute `configuration` requests is absent from `candidate` or has the same value there. -/
def checkCompatible (configuration : String) (requested candidate : AttributeSet) : Except ConfigError Unit :=
  match requested.conflict? candidate with
  | some (key, wanted, provided) => .error (.attributeConflict configuration key wanted provided)
  | none => .ok ()

/-- How a dependency is going to be used. -/
def usageKey : String := "org.gradle.usage"

/-- Which elements of a library are wanted. -/
def libraryElementsKey : String := "org.gradle.libraryelements"

end AttributeSet

end BuildGraph

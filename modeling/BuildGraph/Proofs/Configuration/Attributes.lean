/-
  BuildGraph.Proofs.Configuration.Attributes: when two attribute sets agree, and what a copy holds.

  Each set is walked in the order of its own keys, and keys only one of two sets has are passed over. So
  whichever of the two is walked, the first clash that is met is the one at the least key.

  - `checkCompatible_eq_error_iff`: the clash that is reported is the least.
  - `checkCompatible_error_comm`: both sets report it, each from its own side.
  - `get?_copyTo`: what is copied is found in place of what was there.
  - `checkCompatible_and_copyTo`: the two operations together.
-/

import BuildGraph.Attributes
import BuildGraph.Proofs.Text.Bytes

namespace BuildGraph.AttributeSet

variable {a b : AttributeSet} {k x y : String}

theorem mem_entries_iff : (k, x) ∈ a.entries ↔ a.get? k = some x := by
  obtain ⟨entries, hsorted⟩ := a
  show (k, x) ∈ entries ↔ entries.lookup k = some x
  induction entries with
  | nil => simp
  | cons e rest ih =>
    obtain ⟨hbelow, hrest⟩ := List.pairwise_cons.mp hsorted
    rw [List.mem_cons, lookup_cons, ih hrest]
    by_cases hk : k = e.1
    · -- no other entry has this key
      subst hk
      rw [if_pos rfl, lookup_eq_none hbelow]
      simp [Prod.ext_iff, eq_comm]
    · rw [if_neg hk]
      simp [Prod.ext_iff, hk]

/-! ## Clashes -/

/-- `a` has `x` for the key `k` and `b` has `y`, which is not the same. -/
def Clash (a b : AttributeSet) (k x y : String) : Prop := a.get? k = some x ∧ b.get? k = some y ∧ x ≠ y

theorem Clash.symm (h : Clash a b k x y) : Clash b a k y x := ⟨h.2.1, h.1, Ne.symm h.2.2⟩

/-- Of all keys that clash, `k` is the one that comes first. -/
def FirstClash (a b : AttributeSet) (k x y : String) : Prop :=
  Clash a b k x y ∧ ∀ l v w, Clash a b l v w → k ≤ l

theorem FirstClash.symm (h : FirstClash a b k x y) : FirstClash b a k y x :=
  ⟨h.1.symm, fun l v w hl => h.2 l w v hl.symm⟩

theorem FirstClash.unique {l v w : String} (h : FirstClash a b k x y) (h' : FirstClash a b l v w) :
    k = l ∧ x = v ∧ y = w := by
  obtain ⟨hclash, hleast⟩ := h
  obtain ⟨hclash', hleast'⟩ := h'
  obtain rfl : k = l := String.le_antisymm (hleast l v w hclash') (hleast' k x y hclash)
  refine ⟨rfl, ?_, ?_⟩
  · exact Option.some.inj (hclash.1.symm.trans hclash'.1)
  · exact Option.some.inj (hclash.2.1.symm.trans hclash'.2.1)

/-- What a walk through `a` says of one entry. -/
def clashAt (b : AttributeSet) (e : String × String) : Option (String × String × String) :=
  match b.get? e.1 with
  | some provided => if provided = e.2 then none else some (e.1, e.2, provided)
  | none => none

theorem conflict?_eq_findSome? (a b : AttributeSet) : a.conflict? b = a.entries.findSome? (clashAt b) := rfl

theorem clashAt_eq_some {e : String × String} : clashAt b e = some (k, x, y) ↔ e = (k, x) ∧ b.get? k = some y ∧ x ≠ y := by
  obtain ⟨l, v⟩ := e
  unfold clashAt
  cases hl : b.get? l with
  | none =>
    simp only [reduceCtorEq, Prod.mk.injEq, false_iff]
    rintro ⟨⟨rfl, rfl⟩, hk, -⟩
    rw [hl] at hk
    cases hk
  | some w =>
    by_cases hw : w = v
    · simp only [if_pos hw, reduceCtorEq, Prod.mk.injEq, false_iff]
      rintro ⟨⟨rfl, rfl⟩, hk, hne⟩
      rw [hl] at hk
      exact hne (hw.symm.trans (Option.some.inj hk))
    · simp only [if_neg hw, Option.some.injEq, Prod.mk.injEq]
      constructor
      · rintro ⟨rfl, rfl, rfl⟩
        exact ⟨⟨rfl, rfl⟩, hl, Ne.symm hw⟩
      · rintro ⟨⟨rfl, rfl⟩, hk, -⟩
        exact ⟨rfl, rfl, Option.some.inj (hl.symm.trans hk)⟩

theorem conflict?_eq_none : a.conflict? b = none ↔ ∀ k x y, ¬ Clash a b k x y := by
  rw [conflict?_eq_findSome?, List.findSome?_eq_none_iff]
  constructor
  · rintro h k x y ⟨ha, hb, hne⟩
    have hnone := h (k, x) (mem_entries_iff.mpr ha)
    rw [clashAt_eq_some.mpr ⟨rfl, hb, hne⟩] at hnone
    cases hnone
  · rintro h ⟨k, x⟩ he
    rw [Option.eq_none_iff_forall_ne_some]
    rintro ⟨l, v, y⟩ hsome
    obtain ⟨hkl, hb, hne⟩ := clashAt_eq_some.mp hsome
    cases hkl
    exact h k x y ⟨mem_entries_iff.mp he, hb, hne⟩

/-- The entries before the one that is found do not clash, and those after it have greater keys. -/
theorem firstClash_of_conflict? (h : a.conflict? b = some (k, x, y)) : FirstClash a b k x y := by
  rw [conflict?_eq_findSome?] at h
  obtain ⟨before, e, after, hentries, he, hbefore⟩ := List.findSome?_eq_some_iff.mp h
  obtain ⟨rfl, hb, hne⟩ := clashAt_eq_some.mp he
  have hmem : (k, x) ∈ a.entries := by rw [hentries]; simp
  refine ⟨⟨mem_entries_iff.mp hmem, hb, hne⟩, fun l v w ⟨hl, hl', hvw⟩ => ?_⟩
  have hsorted := a.sorted
  replace hl := mem_entries_iff.mpr hl
  rw [hentries] at hsorted hl
  simp only [List.map_append, List.map_cons, List.pairwise_append, List.pairwise_cons] at hsorted
  obtain ⟨-, ⟨hafter, -⟩, -⟩ := hsorted
  rcases List.mem_append.mp hl with hl | hl
  · have hnone := hbefore (l, v) hl
    rw [clashAt_eq_some.mpr ⟨rfl, hl', hvw⟩] at hnone
    cases hnone
  · rcases List.mem_cons.mp hl with heq | hl
    · cases heq
      exact String.le_refl _
    · exact String.not_lt.mp (String.lt_asymm (hafter l (List.mem_map_of_mem hl)))

theorem conflict?_eq_some : a.conflict? b = some (k, x, y) ↔ FirstClash a b k x y := by
  refine ⟨firstClash_of_conflict?, fun h => ?_⟩
  cases hc : a.conflict? b with
  | none => exact absurd h.1 (conflict?_eq_none.mp hc k x y)
  | some found =>
    obtain ⟨l, v, w⟩ := found
    obtain ⟨rfl, rfl, rfl⟩ := h.unique (firstClash_of_conflict? hc)
    rfl

/-! ## Compatibility -/

variable {configuration : String}

theorem checkCompatible_eq_ok_iff :
    checkCompatible configuration a b = .ok () ↔ ∀ k x y, a.get? k = some x → b.get? k = some y → x = y := by
  have hok : checkCompatible configuration a b = .ok () ↔ a.conflict? b = none := by
    unfold checkCompatible
    split <;> simp_all
  rw [hok, conflict?_eq_none]
  refine forall_congr' fun k => forall_congr' fun x => forall_congr' fun y => ?_
  simp [Clash]

theorem checkCompatible_eq_error_iff {e : ConfigError} :
    checkCompatible configuration a b = .error e ↔
      ∃ k x y, e = .attributeConflict configuration k x y ∧ FirstClash a b k x y := by
  unfold checkCompatible
  cases hc : a.conflict? b with
  | none =>
    simp only [reduceCtorEq, false_iff]
    rintro ⟨k, x, y, -, hclash, -⟩
    exact conflict?_eq_none.mp hc k x y hclash
  | some found =>
    obtain ⟨k, x, y⟩ := found
    have hfirst := conflict?_eq_some.mp hc
    simp only [Except.error.injEq]
    constructor
    · rintro rfl
      exact ⟨k, x, y, rfl, hfirst⟩
    · rintro ⟨l, v, w, rfl, hfirst'⟩
      obtain ⟨rfl, rfl, rfl⟩ := hfirst.unique hfirst'
      rfl

theorem checkCompatible_attributeConflict_iff :
    checkCompatible configuration a b = .error (.attributeConflict configuration k x y) ↔ FirstClash a b k x y := by
  rw [checkCompatible_eq_error_iff]
  constructor
  · rintro ⟨l, v, w, he, hfirst⟩
    cases he
    exact hfirst
  · intro hfirst
    exact ⟨k, x, y, rfl, hfirst⟩

theorem checkCompatible_error_comm :
    checkCompatible configuration a b = .error (.attributeConflict configuration k x y) ↔
      checkCompatible configuration b a = .error (.attributeConflict configuration k y x) := by
  rw [checkCompatible_attributeConflict_iff, checkCompatible_attributeConflict_iff]
  exact ⟨FirstClash.symm, FirstClash.symm⟩

/-! ## Copies -/

/-- What is copied is found in place of what was there. -/
theorem get?_copyTo (source target : AttributeSet) (k : String) :
    (source.copyTo target).get? k = (source.get? k).or (target.get? k) := by
  obtain ⟨entries, hsorted⟩ := source
  show (List.foldl (fun s e => s.set e.1 e.2) target entries).get? k = (entries.lookup k).or (target.get? k)
  induction entries generalizing target with
  | nil => rfl
  | cons e rest ih =>
    obtain ⟨hbelow, hrest⟩ := List.pairwise_cons.mp hsorted
    rw [List.foldl_cons, ih _ hrest, get?_set, lookup_cons]
    split
    · -- no other entry has this key
      rename_i hk
      rw [hk, lookup_eq_none hbelow]
      rfl
    · rfl

theorem copyTo_empty (source : AttributeSet) : source.copyTo .empty = source :=
  ext_get? fun k => (get?_copyTo source .empty k).trans Option.or_none

theorem copyTo_copyTo (a b target : AttributeSet) : b.copyTo (a.copyTo target) = (b.copyTo a).copyTo target := by
  refine ext_get? fun k => ?_
  rw [get?_copyTo, get?_copyTo, get?_copyTo, get?_copyTo, Option.or_assoc]

theorem copyTo_self (a : AttributeSet) : a.copyTo a = a := by
  refine ext_get? fun k => ?_
  rw [get?_copyTo, Option.or_self]

theorem checkCompatible_copyTo (configuration : String) (a b : AttributeSet) :
    checkCompatible configuration a (a.copyTo b) = .ok () := by
  refine checkCompatible_eq_ok_iff.mpr fun k x y hx hy => ?_
  rw [get?_copyTo, hx, Option.some_or] at hy
  exact Option.some.inj hy

theorem copyTo_checkCompatible (configuration : String) (a b : AttributeSet) :
    checkCompatible configuration (a.copyTo b) a = .ok () :=
  checkCompatible_eq_ok_iff.mpr fun k x y hx hy =>
    (checkCompatible_eq_ok_iff.mp (checkCompatible_copyTo configuration a b) k y x hy hx).symm

/-- Two sets are compatible if no key has different values. Otherwise the key that is reported is, byte by
    byte, the least of those that do, and it is the same from either side. A copy of `a` onto `b` has the
    value of `a` for the keys of `a` and that of `b` for all others; it is compatible with `a`, copying again
    changes nothing, and copying `a` and then `c` is copying what `c` copied onto `a` comes to. -/
theorem checkCompatible_and_copyTo (configuration : String) (a b : AttributeSet) :
    (checkCompatible configuration a b = .ok () ↔ ∀ k x y, a.get? k = some x → b.get? k = some y → x = y) ∧
      (∀ e, checkCompatible configuration a b = .error e ↔
        ∃ k x y, e = .attributeConflict configuration k x y ∧ Clash a b k x y ∧
          ∀ l v w, Clash a b l v w → bytes k ≤ bytes l) ∧
      (∀ k x y, checkCompatible configuration a b = .error (.attributeConflict configuration k x y) ↔
        checkCompatible configuration b a = .error (.attributeConflict configuration k y x)) ∧
      (∀ k, (a.copyTo b).get? k = (a.get? k).or (b.get? k)) ∧
      checkCompatible configuration a (a.copyTo b) = .ok () ∧
      checkCompatible configuration (a.copyTo b) a = .ok () ∧
      a.copyTo (a.copyTo b) = a.copyTo b ∧
      ∀ c : AttributeSet, c.copyTo (a.copyTo b) = (c.copyTo a).copyTo b := by
  refine ⟨checkCompatible_eq_ok_iff, fun e => ?_, fun k x y => checkCompatible_error_comm,
    get?_copyTo a b, checkCompatible_copyTo configuration a b, copyTo_checkCompatible configuration a b, ?_,
    fun c => copyTo_copyTo a c b⟩
  · simp only [checkCompatible_eq_error_iff, FirstClash, bytes_le_iff]
  · rw [copyTo_copyTo, copyTo_self]

end BuildGraph.AttributeSet

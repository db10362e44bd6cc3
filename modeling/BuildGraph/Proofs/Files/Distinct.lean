/-
  BuildGraph.Proofs.Files.Distinct: lists that keep the first of equal entries.

  - `pairwise_addAll`: no two entries are equal.
  - `exists_beq_of_mem_ofList`: every entry given is equal to one that is kept.
  - `addAll_beq_right`: adding makes no difference to what is added only if it begins with what is there.
-/

import Mathlib.Data.List.Forall2
import BuildGraph.Distinct

namespace BuildGraph.Distinct

variable {α : Type} [BEq α] {xs ys : List α} {x y : α}

/-- What is added comes after what was there. -/
theorem prefix_add (xs : List α) (x : α) : xs <+: add xs x := by
  unfold add
  split
  · exact List.prefix_rfl
  · exact List.prefix_append ..

theorem mem_add (h : x ∈ add xs y) : x ∈ xs ∨ x = y := by
  unfold add at h
  split at h
  · exact .inl h
  · rcases List.mem_append.mp h with h | h
    · exact .inl h
    · exact .inr (List.mem_singleton.mp h)

theorem prefix_addAll (xs ys : List α) : xs <+: addAll xs ys := by
  induction ys generalizing xs with
  | nil => exact List.prefix_rfl
  | cons y ys ih => exact (prefix_add xs y).trans (ih _)

theorem mem_addAll_of_mem (h : x ∈ xs) : x ∈ addAll xs ys := (prefix_addAll xs ys).subset h

theorem mem_addAll (h : x ∈ addAll xs ys) : x ∈ xs ∨ x ∈ ys := by
  induction ys generalizing xs with
  | nil => exact .inl h
  | cons y ys ih =>
    rcases ih h with h | h
    · rcases mem_add h with h | rfl
      · exact .inl h
      · exact .inr (List.mem_cons_self ..)
    · exact .inr (List.mem_cons_of_mem _ h)

theorem mem_of_mem_ofList (h : x ∈ ofList xs) : x ∈ xs := (mem_addAll h).resolve_left (by simp)

/-- Entries that are told apart as before are kept as before. -/
theorem map_add {β : Type} [BEq β] {f : α → β} (hf : ∀ a b, (f a == f b) = (a == b)) (xs : List α) (x : α) :
    (add xs x).map f = add (xs.map f) (f x) := by
  have hcontains : (xs.map f).contains (f x) = xs.contains x := by
    simp only [List.contains_eq_any_beq, List.any_map, Function.comp_def, hf]
  unfold add
  rw [hcontains]
  split
  · rfl
  · rw [List.map_append, List.map_singleton]

/-- An entry that is added is kept, or an equal one is there. -/
theorem exists_beq_of_add [ReflBEq α] (xs : List α) (x : α) : ∃ y ∈ add xs x, (x == y) = true := by
  unfold add
  split
  · rename_i h
    exact List.contains_iff_exists_mem_beq.mp h
  · exact ⟨x, by simp, BEq.rfl⟩

theorem exists_beq_of_mem_addAll [ReflBEq α] (h : x ∈ ys) : ∃ y ∈ addAll xs ys, (x == y) = true := by
  induction ys generalizing xs with
  | nil => simp at h
  | cons z ys ih =>
    rcases List.mem_cons.mp h with rfl | h
    · obtain ⟨y, hy, he⟩ := exists_beq_of_add xs x
      refine ⟨y, ?_, he⟩
      rw [addAll_cons]
      exact mem_addAll_of_mem hy
    · exact ih h

theorem exists_beq_of_mem_ofList [ReflBEq α] (h : x ∈ xs) : ∃ y ∈ ofList xs, (x == y) = true :=
  exists_beq_of_mem_addAll h

/-! ## No two entries are equal -/

theorem pairwise_add [EquivBEq α] (h : xs.Pairwise fun a b => (a == b) = false) (x : α) :
    (add xs x).Pairwise fun a b => (a == b) = false := by
  unfold add
  split
  · exact h
  · rename_i hx
    refine List.pairwise_append.mpr ⟨h, List.pairwise_singleton .., fun a ha b hb => ?_⟩
    rw [List.mem_singleton] at hb
    subst hb
    refine Bool.eq_false_iff.mpr fun hab => hx ?_
    exact List.contains_iff_exists_mem_beq.mpr ⟨a, ha, BEq.symm hab⟩

theorem pairwise_addAll [EquivBEq α] (h : xs.Pairwise fun a b => (a == b) = false) (ys : List α) :
    (addAll xs ys).Pairwise fun a b => (a == b) = false := by
  induction ys generalizing xs with
  | nil => exact h
  | cons y ys ih => exact ih (pairwise_add h y)

/-! ## What is added -/

theorem add_of_contains (h : xs.contains x = true) : add xs x = xs := if_pos h

theorem add_of_not_contains (h : xs.contains x = false) : add xs x = xs ++ [x] := if_neg (by simpa using h)

theorem addAll_of_contains (h : ∀ y ∈ ys, xs.contains y = true) : addAll xs ys = xs := by
  induction ys with
  | nil => rfl
  | cons y ys ih =>
    rw [addAll_cons, add_of_contains (h y (List.mem_cons_self ..))]
    exact ih fun z hz => h z (List.mem_cons_of_mem _ hz)

theorem addAll_add [EquivBEq α] (xs ys : List α) (y : α) : addAll xs (add ys y) = add (addAll xs ys) y := by
  cases hy : ys.contains y with
  | true =>
    have hthere : (addAll xs ys).contains y = true := by rw [contains_addAll, hy, Bool.or_true]
    rw [add_of_contains hy, add_of_contains hthere]
  | false =>
    rw [add_of_not_contains hy, addAll_append, addAll_cons, addAll_nil]

theorem addAll_addAll [EquivBEq α] (xs ys zs : List α) : addAll xs (addAll ys zs) = addAll (addAll xs ys) zs := by
  induction zs generalizing ys with
  | nil => rfl
  | cons z zs ih => rw [addAll_cons, ih, addAll_add, addAll_cons]

/-- Of entries that differ from each other, those are added that are not there. -/
theorem addAll_eq_append_filter [EquivBEq α] (h : ys.Pairwise fun a b => (a == b) = false) :
    addAll xs ys = xs ++ ys.filter fun y => !xs.contains y := by
  induction ys generalizing xs with
  | nil => simp
  | cons y ys ih =>
    obtain ⟨hy, hys⟩ := List.pairwise_cons.mp h
    have hrest : (ys.filter fun z => !(add xs y).contains z) = ys.filter fun z => !xs.contains z := by
      refine List.filter_congr fun z hz => ?_
      rw [contains_add, hy z hz, Bool.or_false]
    rw [addAll_cons, ih hys, hrest]
    cases hc : xs.contains y with
    | true =>
      rw [add_of_contains hc, List.filter_cons, hc]
      rfl
    | false =>
      rw [add_of_not_contains hc, List.filter_cons, hc, List.append_assoc]
      rfl

/-- Entries that differ from each other are all kept. -/
theorem ofList_of_pairwise [EquivBEq α] (h : xs.Pairwise fun a b => (a == b) = false) : ofList xs = xs := by
  rw [ofList, addAll_eq_append_filter h]
  simp

theorem addAll_ofList [EquivBEq α] (xs ys : List α) : addAll xs (ofList ys) = addAll xs ys := addAll_addAll xs [] ys

theorem contains_ofList [EquivBEq α] (xs : List α) (x : α) : (ofList xs).contains x = xs.contains x := by
  rw [ofList, contains_addAll, List.contains_nil, Bool.false_or]

/-! ## Leaving entries out -/

variable {p : α → Bool}

theorem filter_add [EquivBEq α] (hp : ∀ a b, (a == b) = true → p a = p b) (xs : List α) (y : α) :
    (add xs y).filter p = if p y then add (xs.filter p) y else xs.filter p := by
  cases hy : p y with
  | true =>
    -- what equals `y` is not left out, so `y` is found among the rest exactly if it was found before
    have hsame : (xs.filter p).contains y = xs.contains y := by
      rw [Bool.eq_iff_iff, List.contains_iff_exists_mem_beq, List.contains_iff_exists_mem_beq]
      refine exists_congr fun a => ⟨fun ⟨ha, he⟩ => ⟨(List.mem_filter.mp ha).1, he⟩, fun ⟨ha, he⟩ => ⟨?_, he⟩⟩
      exact List.mem_filter.mpr ⟨ha, (hp y a he).symm.trans hy⟩
    cases hc : xs.contains y with
    | true => rw [add_of_contains hc, add_of_contains (hsame.trans hc), if_pos rfl]
    | false =>
      rw [add_of_not_contains hc, add_of_not_contains (hsame.trans hc), List.filter_append, if_pos rfl]
      simp [hy]
  | false =>
    cases hc : xs.contains y with
    | true => rw [add_of_contains hc, if_neg (by simp)]
    | false =>
      rw [add_of_not_contains hc, List.filter_append, if_neg (by simp)]
      simp [hy]

/-- Entries may be left out before or after, if of equal entries all are or none is. -/
theorem filter_addAll [EquivBEq α] (hp : ∀ a b, (a == b) = true → p a = p b) (xs ys : List α) :
    (addAll xs ys).filter p = addAll (xs.filter p) (ys.filter p) := by
  induction ys generalizing xs with
  | nil => rfl
  | cons y ys ih =>
    rw [addAll_cons, ih, filter_add hp, List.filter_cons]
    split <;> rfl

theorem filter_ofList [EquivBEq α] (hp : ∀ a b, (a == b) = true → p a = p b) (xs : List α) :
    (ofList xs).filter p = ofList (xs.filter p) := filter_addAll hp [] xs

/-! ## Equal lists -/

/-- Lists are equal if their entries are, one by one. -/
theorem list_beq_iff : (xs == ys) = true ↔ List.Forall₂ (fun a b => (a == b) = true) xs ys := by
  induction xs generalizing ys with
  | nil => cases ys <;> simp
  | cons x xs ih => cases ys <;> simp [ih]

theorem list_beq_symm [EquivBEq α] (h : (xs == ys) = true) : (ys == xs) = true :=
  list_beq_iff.mpr ((list_beq_iff.mp h).imp fun _ _ => BEq.symm).flip

theorem list_beq_trans [EquivBEq α] {zs : List α} (h : (xs == ys) = true) (h' : (ys == zs) = true) : (xs == zs) = true := by
  rw [list_beq_iff] at *
  induction h generalizing zs with
  | nil => exact h'
  | cons hxy _ ih =>
    cases h' with
    | cons hyz hrest => exact .cons (BEq.trans hxy hyz) (ih hrest)

/-- Equal lists have equal entries. -/
theorem exists_beq_of_beq (h : (xs == ys) = true) (hx : x ∈ xs) : ∃ y ∈ ys, (x == y) = true := by
  obtain ⟨i, hi, rfl⟩ := List.mem_iff_getElem.mp hx
  have hentries := list_beq_iff.mp h
  have hi' : i < ys.length := hentries.length_eq ▸ hi
  exact ⟨ys[i], List.getElem_mem hi', hentries.get hi hi'⟩

theorem beq_append_right [ReflBEq α] (h : (xs == ys) = true) (zs : List α) : (xs ++ zs == ys ++ zs) = true :=
  list_beq_iff.mpr (List.rel_append (list_beq_iff.mp h) (List.forall₂_same.mpr fun _ _ => BEq.rfl))

/-- `xs` is a prefix of `ys` up to equality if it equals one. -/
theorem isPrefixOf_iff : xs.isPrefixOf ys = true ↔ ∃ front back, ys = front ++ back ∧ (xs == front) = true := by
  induction xs generalizing ys with
  | nil =>
    exact ⟨fun _ => ⟨[], ys, rfl, rfl⟩, fun _ => rfl⟩
  | cons x xs ih =>
    constructor
    · intro h
      cases ys with
      | nil => cases h
      | cons y ys =>
        obtain ⟨hxy, hrest⟩ : (x == y) = true ∧ xs.isPrefixOf ys = true := by simpa [List.isPrefixOf] using h
        obtain ⟨front, back, rfl, hfront⟩ := ih.mp hrest
        exact ⟨y :: front, back, rfl, by simpa using ⟨hxy, hfront⟩⟩
    · rintro ⟨front, back, rfl, h⟩
      cases front with
      | nil => cases h
      | cons y front =>
        obtain ⟨hxy, hrest⟩ : (x == y) = true ∧ (xs == front) = true := by simpa using h
        simpa [List.isPrefixOf] using ⟨hxy, ih.mpr ⟨front, back, rfl, hrest⟩⟩

theorem isPrefixOf_of_append_beq {zs : List α} (h : (xs ++ zs == ys) = true) : xs.isPrefixOf ys = true := by
  have hfront := List.forall₂_take xs.length (list_beq_iff.mp h)
  rw [List.take_left] at hfront
  exact isPrefixOf_iff.mpr ⟨_, _, (List.take_append_drop ..).symm, list_beq_iff.mpr hfront⟩

/-- Adding `ys` to `xs` comes to `ys` again exactly if `ys` begins with `xs`. -/
theorem addAll_beq_right [EquivBEq α] (h : ys.Pairwise fun a b => (a == b) = false) :
    (addAll xs ys == ys) = true ↔ xs.isPrefixOf ys = true := by
  rw [addAll_eq_append_filter h]
  refine ⟨isPrefixOf_of_append_beq, fun hprefix => ?_⟩
  obtain ⟨front, back, rfl, hfront⟩ := isPrefixOf_iff.mp hprefix
  obtain ⟨-, -, hapart⟩ := List.pairwise_append.mp h
  have hthere : (front.filter fun y => !xs.contains y) = [] := by
    refine List.filter_eq_nil_iff.mpr fun y hy => ?_
    obtain ⟨x, hx, hyx⟩ := exists_beq_of_beq (list_beq_symm hfront) hy
    rw [List.contains_iff_exists_mem_beq.mpr ⟨x, hx, hyx⟩]
    decide
  have hnew : (back.filter fun y => !xs.contains y) = back := by
    refine List.filter_eq_self.mpr fun y hy => ?_
    rw [Bool.not_eq_true', Bool.eq_false_iff]
    intro hc
    obtain ⟨x, hx, hyx⟩ := List.contains_iff_exists_mem_beq.mp hc
    obtain ⟨z, hz, hxz⟩ := exists_beq_of_beq hfront hx
    exact Bool.eq_false_iff.mp (hapart z hz y hy) (BEq.symm (BEq.trans hyx hxz))
  rw [List.filter_append, hthere, hnew, List.nil_append]
  exact beq_append_right hfront back

end BuildGraph.Distinct

/-
  BuildGraph.Proofs.Files.Path: joining paths goes by their components.

  The pieces of two texts with a slash between them are the pieces of the one and those of the other
  (`pieces_slash`). So joining a relative path adds its steps to what stands before it, however
  either is written, and joining equal paths to the same path gives equal paths.

  - `Path.join_congr`: equal paths joined to one path are equal.
  - `Layout.resolve_congr`: equal locations resolve to equal paths.
-/

import BuildGraph.Files.Location

namespace BuildGraph

namespace Path

theorem pieces_ne_nil (cs : List Char) : pieces cs ≠ [] := by
  cases cs with
  | nil => simp [pieces]
  | cons c cs =>
    unfold pieces
    split
    · simp
    · split <;> simp

theorem pieces_cons_of_ne {c : Char} (hc : c ≠ '/') {p : List Char} {ps : List (List Char)} {cs : List Char}
    (h : pieces cs = p :: ps) : pieces (c :: cs) = (c :: p) :: ps := by
  rw [pieces, if_neg hc, h]

theorem pieces_slash (cs ds : List Char) : pieces (cs ++ '/' :: ds) = pieces cs ++ pieces ds := by
  induction cs with
  | nil => simp [pieces]
  | cons c cs ih =>
    by_cases hc : c = '/'
    · subst hc
      rw [List.cons_append, pieces, if_pos rfl, ih, pieces, if_pos rfl, List.cons_append]
    · obtain ⟨p, ps, hp⟩ := List.exists_cons_of_ne_nil (pieces_ne_nil cs)
      rw [hp, List.cons_append] at ih
      rw [List.cons_append, pieces_cons_of_ne hc ih, pieces_cons_of_ne hc hp, List.cons_append]

/-- The components of the pieces of a text that follows a slash. -/
def steps (cs : List Char) : List Component := (pieces cs).filterMap step

/-- The components of what stands before a slash. -/
def lead : List Char → List Component
  | [] => [.root]
  | cs => componentsOf cs

theorem steps_slash (cs ds : List Char) : steps (cs ++ '/' :: ds) = steps cs ++ steps ds := by
  rw [steps, pieces_slash, List.filterMap_append, steps, steps]

/-- What a text's first piece makes of it: a root, a dot, or nothing. -/
theorem componentsOf_eq (cs : List Char) :
    componentsOf cs =
      (if cs.head? = some '/' then [.root] else if (pieces cs).head? = some ['.'] then [.current] else []) ++ steps cs := by
  by_cases hs : cs.head? = some '/'
  · obtain ⟨ds, rfl⟩ := List.head?_eq_some_iff.mp hs
    rfl
  · have hslash : ∀ ds, cs ≠ '/' :: ds := fun ds h => hs (h ▸ rfl)
    rw [if_neg hs]
    by_cases hd : (pieces cs).head? = some ['.']
    · obtain ⟨ps, hps⟩ := List.head?_eq_some_iff.mp hd
      rw [if_pos hd, componentsOf.eq_2 _ _ hslash hps, steps, hps]
      rfl
    · have hdot : ∀ ps, pieces cs ≠ ['.'] :: ps := fun ps h => hd (h ▸ rfl)
      rw [if_neg hd, componentsOf.eq_3 _ hslash hdot]
      rfl

theorem steps_cons_slash (ds : List Char) : steps ('/' :: ds) = steps ds := steps_slash [] ds

theorem componentsOf_slash (cs ds : List Char) : componentsOf (cs ++ '/' :: ds) = lead cs ++ steps ds := by
  cases cs with
  | nil =>
    rw [List.nil_append, componentsOf_eq, steps_cons_slash]
    rfl
  | cons c cs =>
    have hhead : ((c :: cs) ++ '/' :: ds).head? = (c :: cs).head? := rfl
    have hpiece : (pieces ((c :: cs) ++ '/' :: ds)).head? = (pieces (c :: cs)).head? := by
      rw [pieces_slash]
      obtain ⟨p, ps, hp⟩ := List.exists_cons_of_ne_nil (pieces_ne_nil (c :: cs))
      rw [hp]
      rfl
    show _ = componentsOf (c :: cs) ++ steps ds
    rw [componentsOf_eq, componentsOf_eq, steps_slash, hhead, hpiece, List.append_assoc]

/-- The steps are the components that are neither root nor dot. -/
theorem steps_eq_filter (cs : List Char) :
    steps cs = (componentsOf cs).filter fun c => c ≠ .root ∧ c ≠ .current := by
  have hsteps : ∀ c ∈ steps cs, c ≠ .root ∧ c ≠ .current := by
    intro c hc
    obtain ⟨p, -, hp⟩ := List.mem_filterMap.mp hc
    unfold step at hp
    split at hp <;> cases hp <;> simp
  have hkeep : (steps cs).filter (fun c => c ≠ .root ∧ c ≠ .current) = steps cs :=
    List.filter_eq_self.mpr fun c hc => by simpa using hsteps c hc
  rw [componentsOf_eq, List.filter_append, hkeep]
  split
  · rfl
  · split <;> rfl

/-- Whether a path is absolute can be seen from its components. -/
theorem isAbsolute_iff (p : Path) : p.isAbsolute = true ↔ p.components.head? = some .root := by
  have hsteps : (steps p.text.toList).head? ≠ some .root := by
    intro h
    have hmem := List.mem_of_head? h
    rw [steps_eq_filter, List.mem_filter] at hmem
    simp at hmem
  rw [isAbsolute, components, componentsOf_eq]
  by_cases hs : p.text.toList.head? = some '/'
  · simp [hs]
  · by_cases hd : (pieces p.text.toList).head? = some ['.']
    · simp [hs, hd]
    · simp [hs, hd, hsteps]

/-- Joining a relative path to one with a text adds its steps. -/
theorem exists_components_join (a : Path) (ha : a.text.toList ≠ []) :
    ∃ front, ∀ b : Path, b.isAbsolute = false → (a.join b).components = front ++ steps b.text.toList := by
  cases ho : a.isOpen with
  | true =>
    refine ⟨lead a.text.toList, fun b hb => ?_⟩
    rw [← componentsOf_slash, join, hb, ho]
    simp [components]
  | false =>
    obtain ⟨c, hc⟩ : ∃ c, a.text.toList.getLast? = some c := ⟨_, List.getLast?_eq_some_getLast ha⟩
    have hslash : c = '/' := by
      simp only [isOpen, hc] at ho
      simpa using ho
    subst hslash
    obtain ⟨cs, hcs⟩ := List.getLast?_eq_some_iff.mp hc
    refine ⟨lead cs, fun b hb => ?_⟩
    rw [← componentsOf_slash, join, hb, ho]
    simp [components, hcs]

/-- Equal paths seen from the same path are equal. -/
theorem join_congr (a : Path) {b c : Path} (h : (b == c) = true) : (a.join b == a.join c) = true := by
  have hbc : b.components = c.components := beq_iff.mp h
  have habs : b.isAbsolute = c.isAbsolute := by
    rw [Bool.eq_iff_iff, isAbsolute_iff, isAbsolute_iff, hbc]
  cases hb : b.isAbsolute with
  | true =>
    rw [join_of_absolute hb, join_of_absolute (habs ▸ hb)]
    exact h
  | false =>
    by_cases ha : a.text.toList = []
    · have hopen : a.isOpen = false := by simp [isOpen, ha]
      have hempty : a.text = "" := String.toList_eq_nil_iff.mp ha
      rw [join, join, ← habs, hb, hopen, hempty]
      simpa using h
    · obtain ⟨front, hfront⟩ := a.exists_components_join ha
      rw [beq_iff, hfront b hb, hfront c (habs ▸ hb), steps_eq_filter, steps_eq_filter]
      show front ++ b.components.filter _ = front ++ c.components.filter _
      rw [hbc]

end Path

/-- Equal locations are at equal paths. -/
theorem Layout.resolve_congr (layout : Layout) {l m : Location} (h : (l == m) = true) :
    (layout.resolve l == layout.resolve m) = true := by
  rcases Location.beq_iff.mp h with ⟨p, q, rfl, rfl, hpq⟩ | ⟨p, q, rfl, rfl, hpq⟩
  · exact Path.join_congr _ hpq
  · exact Path.join_congr _ hpq

end BuildGraph

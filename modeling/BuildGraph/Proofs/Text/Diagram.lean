/-
  BuildGraph.Proofs.Text.Diagram: what can be told from the text of a diagram.

  A diagram has one line for each node, with its label in quotes, and then one for each edge. Labels are written as they
  are, so whether a diagram can be taken apart again depends on how a label is told from what follows it. What follows a
  label has neither colon nor backslash before the next quote (`Clear`); labels that cannot be confused with longer ones
  followed by such a text are `Delimited`.

  - `drawing_inj`: a diagram with delimited labels determines its labels and edges.
-/

import Mathlib.Data.List.Basic

namespace BuildGraph.Diagram

variable {s t l l' m arrow : List Char} {c d : Char} {i j : Nat}

def indent : List Char := [' ', ' ', ' ', ' ']

/-- What follows a label on its line. -/
def closing : List Char := ['"', ']', '\n']

/-- The lines of nodes, numbered from `i`. -/
def nodes (i : Nat) : List (List Char) → List Char
  | [] => []
  | label :: labels =>
    indent ++ (Nat.toDigits 10 i ++ '[' :: '"' :: (label ++ (closing ++ nodes (i + 1) labels)))

/-- The lines of edges between numbered nodes. -/
def edges (arrow : List Char) : List (Nat × Nat) → List Char
  | [] => []
  | e :: es =>
    indent ++ (Nat.toDigits 10 e.1 ++ ' ' :: (arrow ++ ' ' :: (Nat.toDigits 10 e.2 ++ '\n' :: edges arrow es)))

/-- The lines of a diagram, its nodes numbered from `i`. -/
def drawing (arrow : List Char) (i : Nat) (labels : List (List Char)) (es : List (Nat × Nat)) : List Char :=
  nodes i labels ++ edges arrow es

/-! ## Numbers -/

/-- Where a number ends, the text shows. -/
theorem toDigits_append_inj (hc : c.isDigit = false) (hd : d.isDigit = false)
    (h : Nat.toDigits 10 i ++ c :: s = Nat.toDigits 10 j ++ d :: t) : i = j ∧ c = d ∧ s = t := by
  have htake : ∀ (i : Nat) (c : Char) (s : List Char), c.isDigit = false →
      (Nat.toDigits 10 i ++ c :: s).takeWhile Char.isDigit = Nat.toDigits 10 i := by
    intro i c s hc
    have hdigits : ∀ c ∈ Nat.toDigits 10 i, c.isDigit = true := fun c =>
      Nat.isDigit_of_mem_toDigits (by decide) (by decide)
    rw [List.takeWhile_append_of_pos hdigits, List.takeWhile_cons_of_neg (by simp [hc]), List.append_nil]
  have hdigits : Nat.toDigits 10 i = Nat.toDigits 10 j := by rw [← htake i c s hc, h, htake j d t hd]
  have hvalue : i = j := by
    rw [← Nat.ofDigitChars_ten_toDigits (n := i), hdigits, Nat.ofDigitChars_ten_toDigits]
  rw [hdigits] at h
  obtain ⟨hcd, hst⟩ := List.cons.inj (List.append_cancel_left h)
  exact ⟨hvalue, hcd, hst⟩

/-! ## What follows a label -/

/-- There is neither colon nor backslash before the first quote. -/
inductive Clear : List Char → Prop
  | nil : Clear []
  | quote (cs : List Char) : Clear ('"' :: cs)
  | cons {c : Char} {cs : List Char} : c ≠ ':' → c ≠ '\\' → Clear cs → Clear (c :: cs)

theorem Clear.append (h : ∀ c ∈ s, c ≠ ':' ∧ c ≠ '\\') (ht : Clear t) : Clear (s ++ t) := by
  induction s with
  | nil => exact ht
  | cons c s ih =>
    obtain ⟨hc, hs⟩ := List.forall_mem_cons.mp h
    exact .cons hc.1 hc.2 (ih hs)

theorem clear_indent (ht : Clear t) : Clear (indent ++ t) := .append (by simp [indent]) ht

theorem clear_toDigits (ht : Clear t) : Clear (Nat.toDigits 10 i ++ t) := by
  refine .append (fun c hc => ?_) ht
  have hdigit : c.isDigit = true := Nat.isDigit_of_mem_toDigits (by decide) (by decide) hc
  constructor
  · rintro rfl
    exact absurd hdigit (by decide)
  · rintro rfl
    exact absurd hdigit (by decide)

theorem clear_edges (ha : ∀ c ∈ arrow, c ≠ ':' ∧ c ≠ '\\') (es : List (Nat × Nat)) : Clear (edges arrow es) := by
  induction es with
  | nil => exact .nil
  | cons e es ih =>
    have hline : Clear (Nat.toDigits 10 e.2 ++ '\n' :: edges arrow es) := clear_toDigits (.cons (by decide) (by decide) ih)
    have htarget := Clear.append ha (.cons (c := ' ') (by decide) (by decide) hline)
    exact clear_indent (clear_toDigits (.cons (by decide) (by decide) htarget))

theorem clear_drawing (ha : ∀ c ∈ arrow, c ≠ ':' ∧ c ≠ '\\') (i : Nat) (labels : List (List Char)) (es : List (Nat × Nat)) :
    Clear (drawing arrow i labels es) := by
  cases labels with
  | nil => exact clear_edges ha es
  | cons label labels =>
    rw [drawing, nodes, List.append_assoc, List.append_assoc]
    exact clear_indent (clear_toDigits (.cons (by decide) (by decide) (.quote _)))

/-! ## Labels -/

/-- No label is the beginning of a longer one that goes on like what follows a label. -/
def Delimited (P : List Char → Prop) : Prop :=
  ∀ l m s t, P l → P (l ++ m) → Clear s → closing ++ s = m ++ (closing ++ t) → m = []

theorem Delimited.append_inj {P : List Char → Prop} (hP : Delimited P) (hl : P l) (hl' : P l') (hs : Clear s) (ht : Clear t)
    (h : l ++ (closing ++ s) = l' ++ (closing ++ t)) : l = l' ∧ s = t := by
  have hlabel : l = l' := by
    rcases List.append_eq_append_iff.mp h with ⟨m, rfl, hrest⟩ | ⟨m, rfl, hrest⟩
    · rw [hP l m s t hl hl' hs hrest, List.append_nil]
    · rw [hP l' m t s hl' hl ht hrest, List.append_nil]
  subst hlabel
  exact ⟨rfl, List.append_cancel_left (List.append_cancel_left h)⟩

/-- Labels that do not hold what follows a label are told from it, whatever comes then. -/
theorem delimited_of_not_infix : Delimited fun l => ¬ closing <:+: l := by
  intro l m s t _ hm _ h
  match m with
  | [] => rfl
  | [_] => simp [closing] at h
  | [_, _] => simp [closing] at h
  | a :: b :: c :: m =>
    simp only [closing, List.cons_append, List.cons.injEq] at h
    obtain ⟨rfl, rfl, rfl, -⟩ := h
    exact absurd (List.IsInfix.trans ⟨l, m, by simp [closing]⟩ (List.infix_refl _)) hm

/-! ## Diagrams -/

variable {es es' : List (Nat × Nat)} {labels labels' : List (List Char)}

theorem edges_inj (h : edges arrow es = edges arrow es') : es = es' := by
  induction es generalizing es' with
  | nil =>
    cases es' with
    | nil => rfl
    | cons e' es' => simp [edges, indent] at h
  | cons e es ih =>
    cases es' with
    | nil => simp [edges, indent] at h
    | cons e' es' =>
      obtain ⟨hsource, -, h⟩ := toDigits_append_inj (by decide) (by decide) (List.append_cancel_left h)
      have htarget := (List.cons.inj (List.append_cancel_left h)).2
      obtain ⟨htarget, -, h⟩ := toDigits_append_inj (by decide) (by decide) htarget
      rw [Prod.ext hsource htarget, ih h]

/-- A line that begins with a number and a bracket is no edge. -/
theorem edges_ne_nodes : edges arrow es ≠ indent ++ (Nat.toDigits 10 i ++ '[' :: s) := by
  intro h
  cases es with
  | nil => simp [edges, indent] at h
  | cons e es =>
    obtain ⟨-, hc, -⟩ := toDigits_append_inj (by decide) (by decide) (List.append_cancel_left h)
    exact absurd hc (by decide)

/-- A diagram with delimited labels determines its labels and edges. -/
theorem drawing_inj {P : List Char → Prop} (hP : Delimited P) (ha : ∀ c ∈ arrow, c ≠ ':' ∧ c ≠ '\\')
    (hl : ∀ label ∈ labels, P label) (hl' : ∀ label ∈ labels', P label)
    (h : drawing arrow i labels es = drawing arrow i labels' es') : labels = labels' ∧ es = es' := by
  induction labels generalizing labels' i with
  | nil =>
    cases labels' with
    | nil => exact ⟨rfl, edges_inj h⟩
    | cons label' labels' =>
      rw [drawing, drawing, nodes, nodes, List.nil_append, List.append_assoc, List.append_assoc] at h
      exact absurd h edges_ne_nodes
  | cons label labels ih =>
    cases labels' with
    | nil =>
      rw [drawing, drawing, nodes, nodes, List.nil_append, List.append_assoc, List.append_assoc] at h
      exact absurd h.symm edges_ne_nodes
    | cons label' labels' =>
      obtain ⟨hlabel, hlabels⟩ := List.forall_mem_cons.mp hl
      obtain ⟨hlabel', hlabels'⟩ := List.forall_mem_cons.mp hl'
      simp only [drawing, nodes, List.append_assoc, List.cons_append] at h
      obtain ⟨-, -, h⟩ := toDigits_append_inj (by decide) (by decide) (List.append_cancel_left h)
      obtain ⟨rfl, hrest⟩ := hP.append_inj hlabel hlabel' (clear_drawing ha _ labels es) (clear_drawing ha _ labels' es')
        (List.cons.inj h).2
      obtain ⟨rfl, rfl⟩ := ih hlabels hlabels' hrest
      exact ⟨rfl, rfl⟩

/-! ## Names -/

section

variable {α : Type} {names : List String} {pairs pairs' : List (String × String)}

/-- The positions of the names at both ends of edges. -/
def positions (names : List String) (pairs : List (String × String)) : List (Nat × Nat) :=
  pairs.map fun e => (names.idxOf e.1, names.idxOf e.2)

/-- Every edge leads from one of the names to another. -/
def Within (names : List String) (pairs : List (String × String)) : Prop := ∀ e ∈ pairs, e.1 ∈ names ∧ e.2 ∈ names

theorem positions_inj (h : Within names pairs) (h' : Within names pairs')
    (he : positions names pairs = positions names pairs') : pairs = pairs' := by
  induction pairs generalizing pairs' with
  | nil => exact (List.map_eq_nil_iff.mp he.symm).symm
  | cons e pairs ih =>
    cases pairs' with
    | nil => cases he
    | cons e' pairs' =>
      obtain ⟨⟨hsource, htarget⟩, hpairs⟩ := List.forall_mem_cons.mp h
      obtain ⟨-, hpairs'⟩ := List.forall_mem_cons.mp h'
      obtain ⟨hfirst, hrest⟩ := List.cons.inj he
      have hedge : e = e' := Prod.ext ((List.idxOf_inj hsource).mp (congrArg Prod.fst hfirst))
        ((List.idxOf_inj htarget).mp (congrArg Prod.snd hfirst))
      rw [hedge, ih hpairs hpairs' hrest]

theorem toList_nodes (label : α → String) (xs : List α) :
    (String.join (xs.mapIdx fun i x => "    " ++ toString i ++ "[\"" ++ label x ++ "\"]\n")).toList =
      nodes 0 (xs.map fun x => (label x).toList) := by
  have hnumbered : ∀ k, (xs.mapIdx fun i x => "    " ++ toString (i + k) ++ "[\"" ++ label x ++ "\"]\n").flatMap String.toList =
      nodes k (xs.map fun x => (label x).toList) := by
    induction xs with
    | nil => exact fun k => rfl
    | cons x xs ih =>
      intro k
      have hshift : (fun (i : Nat) x => "    " ++ toString (i + 1 + k) ++ "[\"" ++ label x ++ "\"]\n") =
          fun i x => "    " ++ toString (i + (k + 1)) ++ "[\"" ++ label x ++ "\"]\n" := by
        funext i x
        rw [Nat.add_assoc, Nat.add_comm 1 k]
      rw [List.mapIdx_cons, List.flatMap_cons, hshift, ih, Nat.zero_add, List.map_cons, nodes]
      simp only [String.toList_append, Nat.toString_eq_repr, Nat.toList_repr]
      simp [indent, closing]
  rw [String.toList_join]
  exact hnumbered 0

theorem toList_edges {text arrow : String} (htext : text = " " ++ arrow ++ " ") (names : List String)
    (pairs : List (String × String)) :
    (String.join (pairs.map fun e =>
      "    " ++ toString (names.idxOf e.1) ++ text ++ toString (names.idxOf e.2) ++ "\n")).toList =
      edges arrow.toList (positions names pairs) := by
  rw [String.toList_join]
  induction pairs with
  | nil => rfl
  | cons e pairs ih =>
    have hpositions : positions names (e :: pairs) = (names.idxOf e.1, names.idxOf e.2) :: positions names pairs := rfl
    rw [List.map_cons, List.flatMap_cons, ih, hpositions, edges, htext]
    simp only [String.toList_append, Nat.toString_eq_repr, Nat.toList_repr]
    simp [indent]

end

end BuildGraph.Diagram

/-
  BuildGraph.Proofs.Configuration.Diagram: what the diagram of the configurations tells.

  Names are written into the diagram as they are. A name that holds the end of its line may look like several
  configurations (`diagram_is_ambiguous`); other names cannot.

  - `Reach.diagram_eq_iff`: as long as no name holds the end of its line, the diagram tells the configurations in order, and
    what they extend.
-/

import BuildGraph.Proofs.Configuration.Reach
import BuildGraph.Proofs.Text.Diagram

namespace BuildGraph.Configurations

def arrow : String := "-- \"extendsFrom\" -->"

theorem toList_diagram (r : Configurations) :
    r.diagram.toList = "graph LR\n".toList ++
      Diagram.drawing arrow.toList 0 (r.names.map String.toList) (Diagram.positions r.names r.extensions) := by
  have hnodes := Diagram.toList_nodes (fun name : String => name) r.names
  have hedges := Diagram.toList_edges (by decide : " -- \"extendsFrom\" --> " = " " ++ arrow ++ " ") r.names r.extensions
  unfold diagram indexOf
  dsimp only
  rw [String.toList_append, String.toList_append, hnodes, hedges, List.append_assoc, Diagram.drawing]

theorem Reach.within {r : Configurations} (h : Reach r) : Diagram.Within r.names r.extensions :=
  fun e he => ⟨h.sound.source e.1 e.2 he, h.sound.target e.1 e.2 he⟩

variable {r s : Configurations}

/-- As long as no name holds the end of its line, diagrams are equal just if they show the same. -/
theorem Reach.diagram_eq_iff (hr : Reach r) (hs : Reach s) (hnr : ∀ name ∈ r.names, ¬ ['"', ']', '\n'] <:+: name.toList)
    (hns : ∀ name ∈ s.names, ¬ ['"', ']', '\n'] <:+: name.toList) :
    r.diagram = s.diagram ↔ r.names = s.names ∧ r.extensions = s.extensions := by
  constructor
  · intro h
    have hdrawing := congrArg String.toList h
    rw [toList_diagram, toList_diagram] at hdrawing
    have harrow : ∀ c ∈ arrow.toList, c ≠ ':' ∧ c ≠ '\\' := by simp [arrow]
    obtain ⟨hlabels, hpositions⟩ := Diagram.drawing_inj Diagram.delimited_of_not_infix harrow
      (List.forall_mem_map.mpr hnr) (List.forall_mem_map.mpr hns) (List.append_cancel_left hdrawing)
    have hnames : r.names = s.names := List.map_injective_iff.mpr (fun _ _ => String.toList_inj.mp) hlabels
    rw [← hnames] at hpositions
    exact ⟨hnames, Diagram.positions_inj hr.within (hnames ▸ hs.within) hpositions⟩
  · rintro ⟨hnames, hedges⟩
    rw [← String.toList_inj, toList_diagram, toList_diagram, hnames, hedges]

/-- One configuration whose name has a line break looks like two. -/
theorem diagram_is_ambiguous :
    Reach (create {} "a\"]\n    1[\"b" []).2 ∧ Reach (create (create {} "a" []).2 "b" []).2 ∧
      (create {} "a\"]\n    1[\"b" []).2.diagram = (create (create {} "a" []).2 "b" []).2.diagram ∧
      (create {} "a\"]\n    1[\"b" []).2.names ≠ (create (create {} "a" []).2 "b" []).2.names := by
  refine ⟨?_, ?_, by decide +kernel, by decide +kernel⟩
  · rw [create_eq_createBy]
    exact .create _ _ .empty
  · rw [create_eq_createBy, create_eq_createBy]
    exact .create _ _ (.create _ _ .empty)

/-- Two configurations, one extending the other, and their diagram. -/
theorem diagram_eq_iff_of_two :
    ∃ r, Reach r ∧ r.names = ["a", "b"] ∧ r.extensions = [("b", "a")] ∧
      ∀ s, Reach s → (∀ name ∈ s.names, ¬ ['"', ']', '\n'] <:+: name.toList) → s.diagram = r.diagram →
        s.names = ["a", "b"] ∧ s.extensions = [("b", "a")] := by
  have h := Reach.create "b" (.extend "a" .finish) (.create "a" (.finish (.ok ())) .empty)
  refine ⟨_, h, by decide, by decide, fun s hs hnames hd => ?_⟩
  exact (Reach.diagram_eq_iff hs h hnames (by decide)).mp hd

end BuildGraph.Configurations

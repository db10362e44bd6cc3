/-
  BuildGraph.Proofs.Task.Diagram: what the diagram of the tasks tells.

  A label is the name of a task, a colon and its type. A quote in a name is written with a backslash, and nothing else is
  changed, not even a backslash. So a quote that ends a label may well look like one in a name; but then a colon or a
  backslash has to follow before the next quote, and what comes after a label has none.

  - `delimited_titles`: labels are told from what follows them.
  - `Linked.diagram_eq_iff_pairs`: the diagram tells the tasks in order, with their types, and the dependencies in the
    order they were first declared.
-/

import BuildGraph.Proofs.Files.Distinct
import BuildGraph.Proofs.Task.Cycle
import BuildGraph.Proofs.Text.Diagram
import Mathlib.Data.Prod.Basic

namespace BuildGraph

open Diagram

namespace Tasks

variable {cs ds s t kind kind' m : List Char} {c : Char}

/-! ## Names -/

/-- The characters of a name inside quotes. -/
def escapeChars (cs : List Char) : List Char := cs.flatMap fun c => if c = '"' then ['\\', '"'] else [c]

theorem escapeChars_quote (cs : List Char) : escapeChars ('"' :: cs) = '\\' :: '"' :: escapeChars cs := rfl

theorem escapeChars_cons (h : c ≠ '"') (cs : List Char) : escapeChars (c :: cs) = c :: escapeChars cs := by
  simp [escapeChars, h]

theorem escapeChars_ne_quote (cs s : List Char) : escapeChars cs ≠ '"' :: s := by
  intro h
  cases cs with
  | nil => cases h
  | cons c cs =>
    by_cases hc : c = '"'
    · subst hc
      rw [escapeChars_quote] at h
      exact absurd (List.cons.inj h).1 (by decide)
    · rw [escapeChars_cons hc] at h
      exact hc (List.cons.inj h).1

/-- The name inside quotes is read back by taking the backslash before each quote away. -/
def unescape : List Char → List Char
  | '\\' :: '"' :: cs => '"' :: unescape cs
  | c :: cs => c :: unescape cs
  | [] => []

theorem unescape_escapeChars (cs : List Char) : unescape (escapeChars cs) = cs := by
  induction cs with
  | nil => rfl
  | cons c cs ih =>
    by_cases hc : c = '"'
    · subst hc
      rw [escapeChars_quote, unescape, ih]
    · rw [escapeChars_cons hc, unescape, ih]
      intro ds _ hds
      exact escapeChars_ne_quote cs ds hds

/-- What follows a quote is again escaped. -/
theorem exists_of_escapeChars_eq (h : escapeChars cs = s ++ '"' :: t) : ∃ ds, t = escapeChars ds := by
  induction cs generalizing s with
  | nil => simp [escapeChars] at h
  | cons c cs ih =>
    by_cases hc : c = '"'
    · subst hc
      rw [escapeChars_quote] at h
      match s with
      | [] => exact absurd (List.cons.inj h).1 (by decide)
      | [_] => exact ⟨cs, (List.cons.inj (List.cons.inj h).2).2.symm⟩
      | _ :: _ :: s => exact ih (List.cons.inj (List.cons.inj h).2).2
    · rw [escapeChars_cons hc] at h
      match s with
      | [] => exact absurd (List.cons.inj h).1 hc
      | _ :: s => exact ih (List.cons.inj h).2

/-- An escaped text and a colon have a backslash or a colon before the next quote. -/
theorem not_clear_escapeChars (cs t : List Char) : ¬ Clear (escapeChars cs ++ ':' :: t) := by
  intro h
  induction cs with
  | nil =>
    cases h with
    | cons hcolon => exact hcolon rfl
  | cons c cs ih =>
    by_cases hc : c = '"'
    · subst hc
      rw [escapeChars_quote] at h
      cases h with
      | cons _ hbackslash => exact hbackslash rfl
    · rw [escapeChars_cons hc] at h
      cases h with
      | quote => exact hc rfl
      | cons _ _ h => exact ih h

/-! ## Labels -/

/-- The short name of a type has neither quotes nor a colon before a space. -/
def Plain (kind : List Char) : Prop := '"' ∉ kind ∧ ¬ [':', ' '] <:+: kind

/-- The label of a task. -/
def title (name kind : List Char) : List Char := escapeChars name ++ ':' :: ' ' :: kind

theorem title_inj {name name' : List Char} (hk : Plain kind) (hk' : Plain kind') (h : title name kind = title name' kind') :
    name = name' ∧ kind = kind' := by
  -- of two different splits, the kind of the longer part would hold the other colon and space
  have hsplit : ∀ (x kind kind' : List Char), Plain kind → ':' :: ' ' :: kind = x ++ ':' :: ' ' :: kind' → x = [] := by
    intro x kind kind' hk h
    match x with
    | [] => rfl
    | [_] => simp at h
    | _ :: _ :: x =>
      obtain ⟨-, h⟩ := List.cons.inj h
      obtain ⟨-, rfl⟩ := List.cons.inj h
      exact absurd ⟨x, kind', by simp⟩ hk.2
  have hname : escapeChars name = escapeChars name' := by
    rcases List.append_eq_append_iff.mp h with ⟨x, hx, hrest⟩ | ⟨x, hx, hrest⟩
    · rw [hx, hsplit x kind kind' hk hrest, List.append_nil]
    · rw [hx, hsplit x kind' kind hk' hrest, List.append_nil]
  unfold title at h
  rw [hname] at h
  refine ⟨?_, (List.cons.inj (List.cons.inj (List.append_cancel_left h)).2).2⟩
  rw [← unescape_escapeChars name, hname, unescape_escapeChars]

/-- The labels of tasks are told from what follows them. -/
theorem delimited_titles : Delimited fun l => ∃ name kind, Plain kind ∧ l = title name kind := by
  rintro l m s t - ⟨name, kind, hkind, hlabel⟩ hs h
  cases m with
  | nil => rfl
  | cons c m =>
    obtain ⟨rfl, hafter⟩ := List.cons.inj h
    -- the quote that ends the one label is in the name of the other
    have hquote : ∃ x, escapeChars name = l ++ '"' :: x ∧ m = x ++ ':' :: ' ' :: kind := by
      rcases List.append_eq_append_iff.mp hlabel with ⟨x, hx, hrest⟩ | ⟨x, hx, hrest⟩
      · cases x with
        | nil => exact absurd (List.cons.inj hrest).1 (by decide)
        | cons d x =>
          obtain ⟨rfl, hm⟩ := List.cons.inj hrest
          exact ⟨x, hx, hm⟩
      · have hmem : '"' ∈ ':' :: ' ' :: kind := by
          rw [hrest]
          simp
        simp only [List.mem_cons] at hmem
        rcases hmem with hmem | hmem | hmem
        · exact absurd hmem (by decide)
        · exact absurd hmem (by decide)
        · exact absurd hmem hkind.1
    obtain ⟨x, hname, rfl⟩ := hquote
    obtain ⟨rest, rfl⟩ := exists_of_escapeChars_eq hname
    have hclear : Clear (']' :: '\n' :: s) := .cons (by decide) (by decide) (.cons (by decide) (by decide) hs)
    have hrest : ']' :: '\n' :: s = escapeChars rest ++ ':' :: (' ' :: kind ++ (closing ++ t)) := by
      rw [← List.cons_append, ← List.append_assoc]
      exact hafter
    exact absurd (hrest ▸ hclear) (not_clear_escapeChars _ _)

/-! ## The diagram -/

def arrow : String := "-->"

/-- What the diagram shows of a task. -/
def shown (t : Task) : String × String := (t.name, t.body.kind.shortName)

/-- The label of a task in the diagram. -/
def label (t : Task) : List Char := title t.name.toList t.body.kind.shortName.toList

theorem map_shown_eq {ts ts' : List Task} (hk : ∀ t ∈ ts, Plain t.body.kind.shortName.toList)
    (hk' : ∀ t ∈ ts', Plain t.body.kind.shortName.toList) (h : ts.map label = ts'.map label) :
    ts.map shown = ts'.map shown := by
  induction ts generalizing ts' with
  | nil => rw [List.map_eq_nil_iff.mp h.symm]
  | cons t ts ih =>
    cases ts' with
    | nil => cases h
    | cons t' ts' =>
      obtain ⟨ht, hts⟩ := List.forall_mem_cons.mp hk
      obtain ⟨ht', hts'⟩ := List.forall_mem_cons.mp hk'
      obtain ⟨hlabel, hrest⟩ := List.cons.inj h
      obtain ⟨hname, hkind⟩ := title_inj ht ht' hlabel
      have hfirst : shown t = shown t' := Prod.ext (String.toList_inj.mp hname) (String.toList_inj.mp hkind)
      rw [List.map_cons, List.map_cons, hfirst, ih hts hts' hrest]

theorem toList_escapeQuotes (name : String) : (escapeQuotes name).toList = escapeChars name.toList := String.toList_ofList

theorem toList_diagram (r : Tasks) :
    r.diagram.toList =
      "graph LR\n".toList ++ drawing arrow.toList 0 (r.entries.map label) (positions r.names r.edges) := by
  have hlabel : ∀ t : Task, (escapeQuotes t.name ++ ": " ++ t.body.kind.shortName).toList = label t := by
    intro t
    rw [String.toList_append, String.toList_append, toList_escapeQuotes, List.append_assoc]
    simp [label, title]
  have hnodes : (r.entries.mapIdx fun i t =>
      "    " ++ toString i ++ "[\"" ++ escapeQuotes t.name ++ ": " ++ t.body.kind.shortName ++ "\"]\n") =
        r.entries.mapIdx fun i t =>
          "    " ++ toString i ++ "[\"" ++ (escapeQuotes t.name ++ ": " ++ t.body.kind.shortName) ++ "\"]\n" := by
    simp only [String.append_assoc]
  have hedges := toList_edges (by decide : " --> " = " " ++ arrow ++ " ") r.names r.edges
  unfold diagram indexOf
  dsimp only
  rw [hnodes, String.toList_append, String.toList_append, toList_nodes, hedges, List.append_assoc, drawing]
  simp only [hlabel]

variable {r r' : Tasks}

theorem Sound.within (h : r.Sound) : Within r.names r.edges := fun e he => ⟨h.source e.1 e.2 he, h.target e.1 e.2 he⟩

/-- Diagrams are equal just if they show the same tasks and edges. -/
theorem Sound.diagram_eq_iff_shown (h : r.Sound) (h' : r'.Sound)
    (hk : ∀ t ∈ r.entries, Plain t.body.kind.shortName.toList) (hk' : ∀ t ∈ r'.entries, Plain t.body.kind.shortName.toList) :
    r.diagram = r'.diagram ↔ r.entries.map shown = r'.entries.map shown ∧ r.edges = r'.edges := by
  have hnames : ∀ r : Tasks, r.names = (r.entries.map shown).map (·.1) := by
    intro r
    rw [names, List.map_map]
    rfl
  have hlabels : ∀ r : Tasks, r.entries.map label = (r.entries.map shown).map fun e => title e.1.toList e.2.toList := by
    intro r
    rw [List.map_map]
    rfl
  constructor
  · intro hd
    have hdrawing := congrArg String.toList hd
    rw [toList_diagram, toList_diagram] at hdrawing
    have harrow : ∀ c ∈ arrow.toList, c ≠ ':' ∧ c ≠ '\\' := by simp [arrow]
    obtain ⟨hlabel, hpositions⟩ := drawing_inj delimited_titles harrow
      (List.forall_mem_map.mpr fun t ht => ⟨_, _, hk t ht, rfl⟩) (List.forall_mem_map.mpr fun t ht => ⟨_, _, hk' t ht, rfl⟩)
      (List.append_cancel_left hdrawing)
    have hshown := map_shown_eq hk hk' hlabel
    have hsame : r.names = r'.names := by rw [hnames, hshown, ← hnames]
    rw [← hsame] at hpositions
    exact ⟨hshown, positions_inj h.within (hsame ▸ h'.within) hpositions⟩
  · rintro ⟨hshown, hedges⟩
    rw [← String.toList_inj, toList_diagram, toList_diagram, hlabels, hlabels, hnames, hnames, hshown, hedges]

end Tasks

namespace Linked

variable {p q : Project} {pairs pairs' : List (String × String)}

/-- The edges between the tasks are the pairs, turned round, in the order in which they were first declared. -/
theorem edges_eq (h : Linked p pairs) : p.tasks.edges = (Distinct.ofList pairs.reverse).map Prod.swap := by
  refine h.tasks_induction (P := fun r pairs => r.edges = (Distinct.ofList pairs.reverse).map Prod.swap) rfl ?_ ?_ ?_
  · intro r r' pairs name body cs ih hr
    rw [Tasks.edges_of_register hr, ih]
  · intro r pairs dependent dependency ih _ _
    have hconnect : ∀ e : String × String, Digraph.connect r.edges e.1 e.2 = Distinct.add r.edges e := by
      intro e
      simp [Digraph.connect, Distinct.add]
    have hswap : ∀ a b : String × String, (a.swap == b.swap) = (a == b) := by
      intro a b
      rw [Bool.eq_iff_iff, beq_iff_eq, beq_iff_eq, Prod.swap_inj]
    show Digraph.connect r.edges dependency dependent = _
    rw [hconnect (dependency, dependent), ih, List.reverse_cons, Distinct.ofList, Distinct.ofList, Distinct.addAll_append]
    exact (Distinct.map_add hswap _ (dependent, dependency)).symm
  · intro r r' pairs ih hgraph
    exact (congrArg Digraph.edges hgraph).trans ih

/-- Where the short names of types have neither quotes nor a colon before a space, two diagrams are equal just if the tasks
    are called alike and have types called alike, in the same order, and the same dependencies were declared, in the same
    order but for repetitions. -/
theorem diagram_eq_iff_pairs (hp : Linked p pairs) (hq : Linked q pairs')
    (hk : ∀ t ∈ p.tasks.entries, '"' ∉ t.body.kind.shortName.toList ∧ ¬ [':', ' '] <:+: t.body.kind.shortName.toList)
    (hk' : ∀ t ∈ q.tasks.entries, '"' ∉ t.body.kind.shortName.toList ∧ ¬ [':', ' '] <:+: t.body.kind.shortName.toList) :
    p.tasks.diagram = q.tasks.diagram ↔
      (p.tasks.entries.map fun t => (t.name, t.body.kind.shortName)) =
          (q.tasks.entries.map fun t => (t.name, t.body.kind.shortName)) ∧
        Distinct.ofList pairs.reverse = Distinct.ofList pairs'.reverse := by
  have hedges : p.tasks.edges = q.tasks.edges ↔ Distinct.ofList pairs.reverse = Distinct.ofList pairs'.reverse := by
    rw [hp.edges_eq, hq.edges_eq]
    exact (List.map_injective_iff.mpr Prod.swap_injective).eq_iff
  rw [← hedges]
  exact hp.links.sound.diagram_eq_iff_shown hq.links.sound hk hk'

/-- A task with quotes in its name that comes after another. -/
theorem diagram_eq_iff_pairs_of_quotes :
    let p : Project := { (default : Project) with
      tasks :=
        { entries := [{ name := "a\\", body := .classes {} },
            { name := "say \"a: b\"]", body := .custom ⟨"demo::Say\\", false⟩ {} }]
          edges := [("a\\", "say \"a: b\"]")] } }
    Linked p [("say \"a: b\"]", "a\\")] ∧
      (∀ t ∈ p.tasks.entries, '"' ∉ t.body.kind.shortName.toList ∧ ¬ [':', ' '] <:+: t.body.kind.shortName.toList) ∧
      ∀ (q : Project) (pairs : List (String × String)), Linked q pairs →
        (∀ t ∈ q.tasks.entries, '"' ∉ t.body.kind.shortName.toList ∧ ¬ [':', ' '] <:+: t.body.kind.shortName.toList) →
        p.tasks.diagram = q.tasks.diagram →
          (q.tasks.entries.map fun t => (t.name, t.body.kind.shortName)) = [("a\\", "Classes"), ("say \"a: b\"]", "Say\\")] ∧
            Distinct.ofList pairs.reverse = [("say \"a: b\"]", "a\\")] := by
  intro p
  have hregistered : Linked { p with tasks := { p.tasks with edges := [] } } [] :=
    register "say \"a: b\"]" (.custom ⟨"demo::Say\\", false⟩ {}) [] (register "a\\" (.classes {}) []
      (start (p := { p with tasks := {} }) rfl))
  have hlinked : Linked p [("say \"a: b\"]", "a\\")] :=
    @dependsOn _ _ "say \"a: b\"]" "a\\" hregistered (by decide) (by decide)
  have hplain : ∀ t ∈ p.tasks.entries, '"' ∉ t.body.kind.shortName.toList ∧
      ¬ [':', ' '] <:+: t.body.kind.shortName.toList := by decide +kernel
  refine ⟨hlinked, hplain, fun q pairs hq hk hd => ?_⟩
  obtain ⟨hshown, hpairs⟩ := (Linked.diagram_eq_iff_pairs hlinked hq hplain hk).mp hd
  have hp : (p.tasks.entries.map fun t => (t.name, t.body.kind.shortName)) =
      [("a\\", "Classes"), ("say \"a: b\"]", "Say\\")] := by decide +kernel
  exact ⟨hshown ▸ hp, hpairs ▸ by decide⟩

end Linked

end BuildGraph

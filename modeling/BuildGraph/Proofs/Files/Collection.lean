/-
  BuildGraph.Proofs.Files.Collection: file collections as sets in order.

  Elements may be equal and still be written differently, so the laws are those of lists: which of
  several equal elements is kept, and in which place. Joining keeps the first, and a first element stays
  first whatever else is joined before or after.

  - `built_iff`: what the operations build are exactly the lists of which no two elements are equal.
  - `runAll_built`: steps on a collection build collections.
  - `Built.plus_laws`: the laws of joining.
  - `resolveFiles_dirs`: of directories, equal elements may be left out before resolving or equal paths after.
-/

import BuildGraph.Proofs.Files.Union
import BuildGraph.Script.ProjectAction

namespace BuildGraph

namespace FileElement

/-- Directories are equal if they lie below the same place, with the same components from there. -/
theorem dir_beq_iff {l m : Location} : (dir l == dir m) = true ↔
    (∃ p q, l = .project p ∧ m = .project q ∧ p.components = q.components) ∨
      ∃ p q, l = .build p ∧ m = .build q ∧ p.components = q.components := by
  have h : (dir l == dir m) = (l == m) := rfl
  simp only [h, Location.beq_iff, Path.beq_iff]

end FileElement

namespace FileCollection

variable {a b c : FileCollection} {e : FileElement} {es xs ys : List FileElement}

/-! ## What is built -/

/-- What the operations on collections come to. -/
inductive Built : FileCollection → Prop
  | empty : Built .empty
  | of (e : FileElement) : Built (.of e)
  | add {c : FileCollection} (e : FileElement) : Built c → Built (c.add e)
  | plus {a b : FileCollection} : Built a → Built b → Built (a.plus b)
  | ofList (es : List FileElement) : Built (.ofList es)

/-- No two elements are equal. -/
theorem Built.pairwise (h : Built c) : c.elements.Pairwise fun x y => (x == y) = false := by
  induction h with
  | empty => exact .nil
  | of e => exact List.pairwise_singleton ..
  | add e _ ih => exact Distinct.pairwise_add ih e
  | plus _ _ iha _ => exact Distinct.pairwise_addAll iha _
  | ofList es => exact Distinct.pairwise_addAll .nil es

theorem ofList_elements (h : c.elements.Pairwise fun x y => (x == y) = false) : ofList c.elements = c :=
  congrArg FileCollection.mk (Distinct.ofList_of_pairwise h)

theorem built_iff : Built c ↔ c.elements.Pairwise fun x y => (x == y) = false := by
  constructor
  · exact Built.pairwise
  · intro h
    rw [← ofList_elements h]
    exact .ofList _

/-- The collections that come with a step are built. -/
def OnBuilt : CollectionStep → Prop
  | .plus c => Built c
  | .equals c => Built c
  | _ => True

theorem run_built {step : CollectionStep} (h : Built c) (hs : OnBuilt step) : Built (step.run c).2 := by
  cases step with
  | add e => exact h.add e
  | plus d => exact h.plus hs
  | of e => exact .of e
  | contains e => exact h
  | isEmpty => exact h
  | equals d => exact h

theorem runAll_built {steps : List CollectionStep} (h : Built c) (hs : ∀ step ∈ steps, OnBuilt step) :
    Built (CollectionStep.runAll steps c).2 := by
  induction steps generalizing c with
  | nil => exact h
  | cons step steps ih =>
    obtain ⟨hstep, hrest⟩ := List.forall_mem_cons.mp hs
    exact ih (run_built h hstep) hrest

/-! ## Laws of joining -/

theorem plus_assoc (a b c : FileCollection) : (a.plus b).plus c = a.plus (b.plus c) :=
  congrArg FileCollection.mk (Distinct.addAll_addAll ..).symm

theorem plus_eq_self (h : ∀ e ∈ b.elements, a.contains e = true) : a.plus b = a :=
  congrArg FileCollection.mk (Distinct.addAll_of_contains h)

theorem contains_of_mem (h : e ∈ c.elements) : c.contains e = true :=
  List.contains_iff_exists_mem_beq.mpr ⟨e, h, BEq.rfl⟩

theorem prefix_plus (a b : FileCollection) : a.elements <+: (a.plus b).elements := Distinct.prefix_addAll ..

theorem ofList_append (xs ys : List FileElement) :
    FileCollection.ofList (xs ++ ys) = (FileCollection.ofList xs).plus (FileCollection.ofList ys) := by
  have h : Distinct.ofList (xs ++ ys) = Distinct.addAll (Distinct.ofList xs) (Distinct.ofList ys) := by
    rw [Distinct.addAll_ofList]
    exact Distinct.addAll_append [] xs ys
  exact congrArg FileCollection.mk h

theorem contains_plus (a b : FileCollection) (e : FileElement) :
    (a.plus b).contains e = (a.contains e || b.contains e) := Distinct.contains_addAll ..

/-- No two elements of a collection that is built are equal, directories by their components. Joining is
    associative, the empty collection adds nothing on either side, and neither does a collection joined to
    itself or to what begins with it. What is joined to comes first as it is; collecting elements in two parts
    and joining them is collecting them at once; and what is found in the whole is found in one of the parts. -/
theorem Built.plus_laws (h : Built a) (b c : FileCollection) :
    (a.elements.Pairwise fun x y => (x == y) = false) ∧
      (∀ l m, (FileElement.dir l == .dir m) = true ↔
        (∃ p q, l = .project p ∧ m = .project q ∧ p.components = q.components) ∨
          ∃ p q, l = .build p ∧ m = .build q ∧ p.components = q.components) ∧
      (a.plus b).plus c = a.plus (b.plus c) ∧
      a.plus .empty = a ∧ FileCollection.empty.plus a = a ∧
      a.plus a = a ∧ (a.plus b).plus a = a.plus b ∧
      a.elements <+: (a.plus b).elements ∧
      (∀ xs ys, FileCollection.ofList (xs ++ ys) = (FileCollection.ofList xs).plus (FileCollection.ofList ys)) ∧
      ∀ e, (a.plus b).contains e = true ↔ a.contains e = true ∨ b.contains e = true := by
  refine ⟨h.pairwise, fun l m => FileElement.dir_beq_iff, plus_assoc a b c, rfl, ofList_elements h.pairwise, ?_, ?_,
    prefix_plus a b, ofList_append, fun e => ?_⟩
  · exact plus_eq_self fun e he => contains_of_mem he
  · refine plus_eq_self fun e he => ?_
    rw [contains_plus, contains_of_mem he, Bool.true_or]
  · rw [contains_plus, Bool.or_eq_true]

/-- Of a directory written in two ways the first stays, with its own text. -/
theorem plus_laws_of_equal_dirs :
    let a := (FileCollection.dir (.build ⟨"classes/./main"⟩)).add (.dir (.build ⟨"classes//main/"⟩))
    let b := (FileCollection.output "main").plus (.dir (.build ⟨"classes//main"⟩))
    Built a ∧ a.elements = [.dir (.build ⟨"classes/./main"⟩)] ∧
      (a.plus b).elements = [.dir (.build ⟨"classes/./main"⟩), .output "main"] ∧
      (b.plus a).elements = [.output "main", .dir (.build ⟨"classes//main"⟩)] ∧
      (a.plus b).plus a = a.plus b := by
  have hbuilt := (Built.of (.dir (.build ⟨"classes/./main"⟩))).add (.dir (.build ⟨"classes//main/"⟩))
  obtain ⟨-, -, -, -, -, -, hagain, -⟩ :=
    hbuilt.plus_laws ((FileCollection.output "main").plus (.dir (.build ⟨"classes//main"⟩))) .empty
  exact ⟨hbuilt, rfl, rfl, rfl, hagain⟩

end FileCollection

namespace Project

variable {p : Project} {g : Gathering}

/-! ## Directories -/

/-- Elements that are equal to earlier ones make no difference to what is resolved. -/
theorem resolveFiles_ofList (p : Project) (es : List FileElement) : p.resolveFiles (.ofList es) = p.resolveFiles ⟨es⟩ := by
  obtain ⟨r, hr, hres⟩ := p.exists_collects (.ofList es)
  rw [hres]
  have hall : Collects p {} ([] ++ es) r := .of_addAll hr
  exact (Collects.resolveFiles (c := ⟨es⟩) hall).symm

theorem collects_dirs (p : Project) (g : Gathering) (ls : List Location) :
    Collects p g (ls.map .dir) (.ok { g with paths := Distinct.addAll g.paths (ls.map p.layout.resolve) }) := by
  induction ls generalizing g with
  | nil => exact .nil
  | cons l ls ih => exact .dir (ih _)

/-- Wherever the project and its build directory lie, equal locations are at equal paths. So a collection of
    directories resolves to the paths of all locations it was collected from, each path once, as it is first
    come upon: leaving out elements that are equal to earlier ones before resolving makes no difference. -/
theorem resolveFiles_dirs (p : Project) :
    (∀ (layout : Layout) (l m : Location), (l == m) = true → (layout.resolve l == layout.resolve m) = true) ∧
      (∀ ls : List Location,
        p.resolveFiles (.ofList (ls.map .dir)) = .ok (Distinct.ofList (ls.map p.layout.resolve))) ∧
      ∀ es, p.resolveFiles (.ofList es) = p.resolveFiles ⟨es⟩ := by
  refine ⟨fun layout l m h => layout.resolve_congr h, fun ls => ?_, p.resolveFiles_ofList⟩
  rw [resolveFiles_ofList, (p.collects_dirs {} ls).resolveFiles (c := ⟨ls.map .dir⟩)]
  rfl

/-- Locations that are equal, and others that are not but lie at equal paths, are all resolved to one. -/
theorem resolveFiles_dirs_of_equal_paths :
    let p := { Project.ofSettings {} with layout := { projectDir := ⟨"/work/./app"⟩, buildDir := ⟨"./out/"⟩ } }
    p.resolveFiles (.ofList ([.build ⟨"gen"⟩, .build ⟨"gen/."⟩, .build ⟨"./gen/"⟩, .project ⟨"out//gen"⟩, .build ⟨"/gen"⟩,
        .build ⟨""⟩, .build ⟨".."⟩].map .dir)) =
      .ok [⟨"/work/./app/./out/gen"⟩, ⟨"/gen"⟩, ⟨"/work/./app/./out/"⟩, ⟨"/work/./app/./out/.."⟩] :=
  (resolveFiles_dirs _).2.1 _

end Project

end BuildGraph

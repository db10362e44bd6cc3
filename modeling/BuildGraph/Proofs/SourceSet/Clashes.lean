/-
  BuildGraph.Proofs.SourceSet.Clashes: which source sets have names of configurations or tasks in common.

  The configurations of a source set carry its name as it is, and their endings tell which is which. So no two
  source sets have one in common. Of the tasks, two carry the name capitalised (`capital`), and words that differ
  only in their first letters may be capitalised alike: then these tasks have the same names, and else none.

  - `configuration_inj`: the name of a configuration tells the source set and the part it plays.
  - `disjoint_tasks_iff`: source sets have no task in common exactly if they are capitalised differently.
-/

import Mathlib.Data.List.Basic
import Mathlib.Data.List.Nodup
import BuildGraph.Proofs.SourceSet.Names

namespace BuildGraph.SourceSetName

variable {a b s t name : String}

/-- The parts that the configurations of a source set play. -/
def parts : List String := ["implementation", "compileOnly", "runtimeOnly", "compileClasspath", "runtimeClasspath"]

/-- The names of the configurations that come with a source set. -/
def configurations (name : String) : List String := parts.map (configuration name)

/-- The names of the tasks that come with a source set. -/
def tasks (name : String) : List String := [compileJava name, processResources name, classes name]

/-- A source set's name as its tasks carry it; `main` is left out. -/
def bare (name : String) : String := if isMain name then "" else name

/-- A source set's name as it stands inside the names of its tasks. -/
def capital (name : String) : String := if isMain name then "" else Text.capitalize name

/-! ## Configurations -/

/-- A capitalised part ends no part, and none but itself ends as it does when capitalised. -/
theorem parts_apart : ∀ s ∈ parts, ∀ t ∈ parts,
    ¬ (Text.capitalize t).toList <:+ s.toList ∧
      ((Text.capitalize s).toList <:+ (Text.capitalize t).toList → s = t) := by
  decide +kernel

theorem configuration_of_isMain (h : isMain name = true) (s : String) : configuration name s = s := if_pos h

theorem configuration_of_not_isMain (h : ¬ isMain name = true) (s : String) :
    configuration name s = name ++ Text.capitalize s := if_neg h

/-- What stands alone does not end in a capitalised part. -/
theorem part_ne (hs : s ∈ parts) (ht : t ∈ parts) : s ≠ name ++ Text.capitalize t := by
  rintro rfl
  refine (parts_apart _ hs t ht).1 ?_
  rw [String.toList_append]
  exact List.suffix_append _ _

/-- The name of a configuration tells the source set and the part it plays. -/
theorem configuration_inj (hs : s ∈ parts) (ht : t ∈ parts) (h : configuration a s = configuration b t) :
    a = b ∧ s = t := by
  by_cases ha : isMain a = true <;> by_cases hb : isMain b = true
  · rw [configuration_of_isMain ha, configuration_of_isMain hb] at h
    exact ⟨(beq_iff_eq.mp ha).trans (beq_iff_eq.mp hb).symm, h⟩
  · rw [configuration_of_isMain ha, configuration_of_not_isMain hb] at h
    exact absurd h (part_ne hs ht)
  · rw [configuration_of_not_isMain ha, configuration_of_isMain hb] at h
    exact absurd h.symm (part_ne ht hs)
  · rw [configuration_of_not_isMain ha, configuration_of_not_isMain hb] at h
    have hends : (Text.capitalize s).toList <:+ (b ++ Text.capitalize t).toList := by
      rw [← h, String.toList_append]
      exact List.suffix_append _ _
    have hst : s = t := by
      rw [String.toList_append] at hends
      rcases List.suffix_or_suffix_of_suffix hends (List.suffix_append _ _) with h' | h'
      · exact (parts_apart s hs t ht).2 h'
      · exact ((parts_apart t ht s hs).2 h').symm
    subst hst
    exact ⟨(String.append_left_inj _).mp h, rfl⟩

theorem nodup_parts : parts.Nodup := by decide

theorem nodup_configurations (name : String) : (configurations name).Nodup :=
  List.Nodup.map_on (fun _ hs _ ht h => (configuration_inj hs ht h).2) nodup_parts

theorem disjoint_configurations (h : a ≠ b) : (configurations a).Disjoint (configurations b) := by
  intro x hx hy
  obtain ⟨s, hs, rfl⟩ := List.mem_map.mp hx
  obtain ⟨t, ht, he⟩ := List.mem_map.mp hy
  exact h (configuration_inj hs ht he.symm).1

/-! ## Tasks -/

theorem capitalize_bare (name : String) : Text.capitalize (bare name) = capital name := by
  unfold bare capital
  split <;> rfl

theorem task_eq {verb : String} (hverb : verb ≠ "") {target : String} (htarget : target ≠ "") (name : String) :
    task name verb target = verb ++ capital name ++ Text.capitalize target := by
  rw [← capitalize_bare]
  show camelCase [verb, bare name, target] = _
  unfold camelCase
  by_cases hbare : bare name = ""
  · have hempty : Text.capitalize "" = "" := rfl
    simp [hverb, htarget, hbare, hempty, String.join_cons]
  · simp [hverb, htarget, hbare, String.join_cons, String.append_assoc]

theorem compileJava_eq (name : String) : compileJava name = "compile" ++ capital name ++ "Java" :=
  task_eq (by decide) (by decide) name

theorem processResources_eq (name : String) : processResources name = "process" ++ capital name ++ "Resources" :=
  task_eq (by decide) (by decide) name

theorem classes_eq (name : String) : classes name = if bare name = "" then "classes" else bare name ++ "Classes" := by
  show camelCase ["", bare name, "classes"] = _
  unfold camelCase
  by_cases hbare : bare name = ""
  · simp [hbare]
  · have hcapital : Text.capitalize "classes" = "Classes" := by decide
    simp [hbare, String.join_cons, hcapital]

theorem compileJava_eq_iff : compileJava a = compileJava b ↔ capital a = capital b := by
  rw [compileJava_eq, compileJava_eq, String.append_left_inj, String.append_right_inj]

theorem processResources_eq_iff : processResources a = processResources b ↔ capital a = capital b := by
  rw [processResources_eq, processResources_eq, String.append_left_inj, String.append_right_inj]

/-- Source sets whose classes tasks have the same name are capitalised alike. -/
theorem capital_of_classes_eq (h : classes a = classes b) : capital a = capital b := by
  have hends : ∀ word : String, "classes" ≠ word ++ "Classes" := by
    intro word he
    have hsuffix : "Classes".toList <:+ "classes".toList := by
      rw [he, String.toList_append]
      exact List.suffix_append _ _
    exact absurd hsuffix (by decide)
  rw [← capitalize_bare, ← capitalize_bare]
  rw [classes_eq, classes_eq] at h
  split at h <;> split at h
  · rename_i ha hb
    rw [ha, hb]
  · exact absurd h (hends _)
  · exact absurd h.symm (hends _)
  · rw [(String.append_left_inj _).mp h]

/-- What compiles and what copies resources begin differently. -/
theorem compileJava_ne_processResources (a b : String) : compileJava a ≠ processResources b := by
  rw [compileJava_eq, processResources_eq]
  intro h
  have hfirst := congrArg (·.toList.head?) h
  simp [String.toList_append] at hfirst

/-- What stands for all classes is told from the other tasks by its rank. -/
theorem classes_ne {task : String} (h : taskRank task = 1) (a : String) : classes a ≠ task := by
  intro he
  rw [← he, taskRank_classes] at h
  cases h

theorem nodup_tasks (name : String) : (tasks name).Nodup := by
  have hcompile := (classes_ne (taskRank_compileJava name) name).symm
  have hresources := (classes_ne (taskRank_processResources name) name).symm
  simp [tasks, compileJava_ne_processResources, hcompile, hresources]

/-- Source sets have no task in common exactly if they are capitalised differently. -/
theorem disjoint_tasks_iff : (tasks a).Disjoint (tasks b) ↔ capital a ≠ capital b := by
  constructor
  · intro h hcapital
    have hshared : compileJava a ∈ tasks b := by
      rw [compileJava_eq_iff.mpr hcapital]
      exact List.mem_cons_self ..
    exact h (List.mem_cons_self ..) hshared
  · intro h
    have hcompile : compileJava b ≠ compileJava a := fun he => h (compileJava_eq_iff.mp he.symm)
    have hresources : processResources b ≠ processResources a := fun he => h (processResources_eq_iff.mp he.symm)
    have hclasses : classes b ≠ classes a := fun he => h (capital_of_classes_eq he.symm)
    have hca := (classes_ne (taskRank_compileJava b) a).symm
    have hra := (classes_ne (taskRank_processResources b) a).symm
    have hcb := classes_ne (taskRank_compileJava a) b
    have hrb := classes_ne (taskRank_processResources a) b
    have hrc := (compileJava_ne_processResources a b).symm
    have hcr := compileJava_ne_processResources b a
    simp [tasks, *]

end BuildGraph.SourceSetName

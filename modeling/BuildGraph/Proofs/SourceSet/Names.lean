/-
  BuildGraph.Proofs.SourceSet.Names: how the names of tasks end, and what can be told from that.

  Whatever a source set is called, the names of its tasks end in what they are for. So tasks that
  compile or copy resources are told from those that stand for all classes, and all of these from
  the tasks that process (`taskRank`), by the name alone.
-/

import BuildGraph.Processing.Wiring

namespace BuildGraph.SourceSetName

/-! ## Endings -/

/-- Capitalising a word leaves all but its first character. -/
theorem tail_suffix_capitalize (word : String) : word.toList.tail <:+ (Text.capitalize word).toList := by
  unfold Text.capitalize
  cases h : word.toList with
  | nil => exact List.nil_suffix
  | cons c rest =>
    rw [String.toList_ofList]
    exact List.suffix_append _ _

/-- A word put together from several ends as the last of them does. -/
theorem tail_suffix_camelCase {word : String} (hw : word ≠ "") (words : List String) :
    word.toList.tail <:+ (camelCase (words ++ [word])).toList := by
  have hfilter : (words ++ [word]).filter (· ≠ "") = words.filter (· ≠ "") ++ [word] := by simp [hw]
  unfold camelCase
  rw [hfilter]
  cases words.filter (· ≠ "") with
  | nil =>
    show word.toList.tail <:+ (word ++ String.join []).toList
    rw [String.join_nil, String.append_empty]
    exact List.tail_suffix _
  | cons first rest =>
    show word.toList.tail <:+ (first ++ String.join ((rest ++ [word]).map Text.capitalize)).toList
    have hjoin : String.join ((rest ++ [word]).map Text.capitalize)
        = String.join (rest.map Text.capitalize) ++ Text.capitalize word := by
      rw [List.map_append, String.join_append, List.map_singleton, String.join_cons, String.join_nil, String.append_empty]
    rw [hjoin, String.toList_append, String.toList_append]
    exact ((tail_suffix_capitalize word).trans (List.suffix_append _ _)).trans (List.suffix_append _ _)

theorem tail_suffix_task {target : String} (ht : target ≠ "") (name verb : String) :
    target.toList.tail <:+ (task name verb target).toList :=
  tail_suffix_camelCase ht [verb, if isMain name then "" else name]

/-! ## Ranks -/

/-- Where a task stands in the build of a source set, told by how its name ends: first what processes, then what
    compiles or copies resources, and last what stands for all classes. -/
def taskRank (name : String) : Nat :=
  if "classes".toList.tail <:+ name.toList then 2
  else if "java".toList.tail <:+ name.toList ∨ "resources".toList.tail <:+ name.toList then 1
  else 0

@[simp] theorem taskRank_classes (name : String) : taskRank (classes name) = 2 :=
  if_pos (tail_suffix_task (by decide) name "")

/-- What ends in one way does not end in a different one. -/
theorem not_suffix {xs ys name : List Char} (hx : xs <:+ name) (h : ¬ ys <:+ xs) (h' : ¬ xs <:+ ys) : ¬ ys <:+ name :=
  fun hy => (List.suffix_or_suffix_of_suffix hy hx).elim h h'

@[simp] theorem taskRank_compileJava (name : String) : taskRank (compileJava name) = 1 := by
  have hend := tail_suffix_task (show "java" ≠ "" by decide) name "compile"
  unfold taskRank
  rw [if_neg, if_pos]
  · exact .inl hend
  · exact not_suffix hend (by decide) (by decide)

@[simp] theorem taskRank_processResources (name : String) : taskRank (processResources name) = 1 := by
  have hend := tail_suffix_task (show "resources" ≠ "" by decide) name "process"
  unfold taskRank
  rw [if_neg, if_pos]
  · exact .inr hend
  · exact not_suffix hend (by decide) (by decide)

@[simp] theorem taskRank_taskName (kind : ProcessingKind) : taskRank kind.taskName = 0 := by
  cases kind with
  | application => decide
  | tests main =>
    show taskRank "processTestAot" = 0
    decide

/-- A name that tells a rank is not that of a processing task. -/
theorem taskName_ne {k : Nat} {name : String} (h : taskRank name = k + 1) (kind : ProcessingKind) :
    kind.taskName ≠ name := by
  intro he
  rw [← he, taskRank_taskName] at h
  cases h

end BuildGraph.SourceSetName

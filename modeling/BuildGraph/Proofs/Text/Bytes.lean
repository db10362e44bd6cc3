/-
  BuildGraph.Proofs.Text.Bytes: strings in the order of their bytes.

  Strings are ordered by their characters, and names that are kept in order are ordered by their bytes. The
  two orders are one: characters of fewer bytes come before those of more, and among characters of as many
  bytes the first byte that differs decides.

  - `encodeChar_append_lt`: whatever follows them, two characters are told apart by their bytes.
  - `bytes_le_iff`: a string comes before another exactly if its bytes do.
-/

import Mathlib.Tactic.SplitIfs

namespace BuildGraph

/-- The bytes `s` is stored as. -/
def bytes (s : String) : List UInt8 := s.toUTF8.data.toList

theorem bytes_eq_flatMap (s : String) : bytes s = s.toList.flatMap String.utf8EncodeChar := by
  show s.toByteArray.data.toList = _
  rw [← String.utf8Encode_toList, List.utf8Encode, List.data_toByteArray]

/-- Six bits at a time, from the highest down, the first that differ decide. -/
theorem sextets_lt {m n : Nat} (h : m < n) :
    m / 262144 < n / 262144 ∨ m / 262144 = n / 262144 ∧
      (m / 4096 % 64 < n / 4096 % 64 ∨ m / 4096 % 64 = n / 4096 % 64 ∧
        (m / 64 % 64 < n / 64 % 64 ∨ m / 64 % 64 = n / 64 % 64 ∧ m % 64 < n % 64)) := by
  by_cases h₁ : m / 262144 < n / 262144
  · exact .inl h₁
  · by_cases h₂ : m / 4096 < n / 4096
    · omega
    · omega

theorem encodeChar_append_lt {c d : Char} (h : c < d) (xs ys : List UInt8) :
    String.utf8EncodeChar c ++ xs < String.utf8EncodeChar d ++ ys := by
  have hlt : c.val.toNat < d.val.toNat := h
  have hmax : d.val.toNat < 1114112 := by
    have hvalid := d.valid
    simp only [UInt32.isValidChar, Nat.isValidChar] at hvalid
    omega
  simp only [String.utf8EncodeChar]
  generalize c.val.toNat = m at *
  generalize d.val.toNat = n at *
  have hdigits := sextets_lt hlt
  have hm : m / 262144 % 8 = m / 262144 := by omega
  have hn : n / 262144 % 8 = n / 262144 := by omega
  have hcontinues : ∀ k, (k % 64 + 128) % 256 = k % 64 + 128 := by omega
  -- the first byte tells how many there are, so only characters of as many bytes have to be compared further
  split_ifs <;>
    simp (disch := omega) only [List.cons_append, List.nil_append, List.cons_lt_cons_iff, UInt8.lt_iff_toNat_lt,
      ← UInt8.toNat_inj, UInt8.toNat_ofNat', Nat.reducePow, Nat.mod_eq_of_lt, hm, hn, hcontinues] <;>
    omega

theorem flatMap_encodeChar_lt {cs ds : List Char} (h : cs < ds) :
    cs.flatMap String.utf8EncodeChar < ds.flatMap String.utf8EncodeChar := by
  induction cs generalizing ds with
  | nil =>
    cases ds with
    | nil => exact absurd h (List.lt_irrefl _)
    | cons d ds =>
      rw [List.flatMap_cons]
      obtain ⟨b, rest, hb⟩ := List.exists_cons_of_ne_nil (String.utf8EncodeChar_ne_nil (c := d))
      simp [hb]
  | cons c cs ih =>
    cases ds with
    | nil => simp at h
    | cons d ds =>
      rw [List.flatMap_cons, List.flatMap_cons]
      rcases List.cons_lt_cons_iff.mp h with hlt | ⟨rfl, hrest⟩
      · exact encodeChar_append_lt hlt _ _
      · exact List.append_left_lt (ih hrest)

theorem bytes_lt {s t : String} (h : s < t) : bytes s < bytes t := by
  rw [bytes_eq_flatMap, bytes_eq_flatMap]
  exact flatMap_encodeChar_lt h

theorem bytes_le_iff {s t : String} : bytes s ≤ bytes t ↔ s ≤ t := by
  constructor
  · intro h
    exact String.not_lt.mp fun hlt => absurd (bytes_lt hlt) (List.not_lt.mpr h)
  · intro h
    by_cases hts : t ≤ s
    · rw [String.le_antisymm h hts]
      exact List.le_refl _
    · exact List.le_of_lt (bytes_lt (String.not_le.mp hts))

end BuildGraph

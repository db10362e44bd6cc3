/-
  BuildGraph.Proofs.Json.Grammar: the grammar of JSON texts, as far as it is read.

  Each relation tells how a text may begin: it relates the text, what its beginning stands for, and what follows. A
  character of a string may be written in several ways (`Spelling`); a list or object is its items with commas between
  them (`Items`); blanks may stand before every part. A reader takes from the front of a text exactly what the grammar
  lets it begin with.

  - `readText_iff` / `readBody_iff`: strings.
  - `readList_iff`: lists of a limited number of strings.
  - `readObject_iff`: objects of strings, member by member.
-/

import Mathlib
import BuildGraph.Json.Reader

namespace BuildGraph.Json

/-! ## The grammar -/

inductive Blanks : List Char → List Char → Prop
  | none {cs : List Char} : Blanks cs cs
  | more {c : Char} {cs rest : List Char} : c ∈ [' ', '\t', '\n', '\r'] → Blanks cs rest → Blanks (c :: cs) rest

/-- The digits to base sixteen, by value. -/
def hexDigits : List Char := ['0', '1', '2', '3', '4', '5', '6', '7', '8', '9', 'a', 'b', 'c', 'd', 'e', 'f']

/-- The character is the digit with value `n`, in small or capital letters. -/
def HexDigit (c : Char) (n : Nat) : Prop := hexDigits[n]? = some c ∨ hexDigits[n]?.map Char.toUpper = some c

/-- Four digits to base sixteen. -/
inductive Quad : List Char → Nat → List Char → Prop
  | digits {x₁ x₂ x₃ x₄ : Char} {a b c d : Nat} {rest : List Char} :
    HexDigit x₁ a → HexDigit x₂ b → HexDigit x₃ c → HexDigit x₄ d →
      Quad (x₁ :: x₂ :: x₃ :: x₄ :: rest) (a * 0x1000 + b * 0x100 + c * 0x10 + d) rest

/-- The letters of one-letter escapes, and the characters they stand for. -/
def shortEscapes : List (Char × Char) :=
  [('"', '"'), ('\\', '\\'), ('/', '/'), ('b', '\x08'), ('f', '\x0c'), ('n', '\x0a'), ('r', '\x0d'), ('t', '\x09')]

/-- The first of the two surrogates that stand for a character beyond the basic plane. -/
def highSurrogate (c : Char) : Nat := 0xD800 + (c.toNat - 0x10000) / 0x400

def lowSurrogate (c : Char) : Nat := 0xDC00 + (c.toNat - 0x10000) % 0x400

/-- The ways to write a character inside a string: as it is, by a letter, by its scalar value, or, beyond the basic
    plane, by two surrogates. -/
inductive Spelling : List Char → Char → List Char → Prop
  | plain {c : Char} {rest : List Char} : c ≠ '"' → c ≠ '\\' → 0x20 ≤ c.toNat → Spelling (c :: rest) c rest
  | short {e c : Char} {rest : List Char} : (e, c) ∈ shortEscapes → Spelling ('\\' :: e :: rest) c rest
  | scalar {c : Char} {cs rest : List Char} : Quad cs c.toNat rest → Spelling ('\\' :: 'u' :: cs) c rest
  | surrogates {c : Char} {cs ds rest : List Char} : 0x10000 ≤ c.toNat →
    Quad cs (highSurrogate c) ('\\' :: 'u' :: ds) → Quad ds (lowSurrogate c) rest → Spelling ('\\' :: 'u' :: cs) c rest

/-- The characters of a string, and its closing quote. -/
inductive Body : List Char → List Char → List Char → Prop
  | close {rest : List Char} : Body ('"' :: rest) [] rest
  | next {c : Char} {cs ds s rest : List Char} : Spelling cs c ds → Body ds s rest → Body cs (c :: s) rest

/-- A string. -/
def Text (cs : List Char) (s : String) (rest : List Char) : Prop :=
  ∃ body, Blanks cs ('"' :: body) ∧ Body body s.toList rest

/-- A key and its value, both strings. -/
def Member (cs : List Char) (m : String × String) (rest : List Char) : Prop :=
  ∃ ds es, Text cs m.1 ds ∧ Blanks ds (':' :: es) ∧ Text es m.2 rest

/-- What follows the opening bracket of a list or object, if `first`, or else one of its items: the items to come and the
    closing bracket. -/
inductive Items {α : Type} (Item : List Char → α → List Char → Prop) (bracket : Char) :
    Bool → List Char → List α → List Char → Prop
  | close {first : Bool} {cs rest : List Char} : Blanks cs (bracket :: rest) → Items Item bracket first cs [] rest
  | first {a : α} {items : List α} {cs ds rest : List Char} : Item cs a ds → Items Item bracket false ds items rest →
    Items Item bracket true cs (a :: items) rest
  | next {a : α} {items : List α} {cs ds es rest : List Char} : Blanks cs (',' :: ds) → Item ds a es →
    Items Item bracket false es items rest → Items Item bracket false cs (a :: items) rest

/-- Reading one thing after another succeeds if both are read. -/
theorem bind_eq_ok {α β : Type} {m : Except Error α} {f : α → Except Error β} {b : β} (h : (m >>= f) = .ok b) :
    ∃ a, m = .ok a ∧ f a = .ok b := by
  cases m with
  | error e => cases h
  | ok a => exact ⟨a, rfl, h⟩

theorem ok_bind {α β : Type} (a : α) (f : α → Except Error β) : (Except.ok a >>= f) = f a := rfl

/-! ## Blanks -/

section

variable {cs ds rest : List Char} {c : Char}

theorem isSpace_iff : isSpace c = true ↔ c ∈ [' ', '\t', '\n', '\r'] := by simp [isSpace, or_assoc]

theorem Blanks.trans (h : Blanks cs ds) (h' : Blanks ds rest) : Blanks cs rest := by
  induction h with
  | none => exact h'
  | more hc _ ih => exact .more hc (ih h')

theorem Blanks.length_le (h : Blanks cs rest) : rest.length ≤ cs.length := by
  induction h with
  | none => exact Nat.le_refl _
  | more _ _ ih => exact Nat.le_succ_of_le ih

theorem blanks_skipSpace (cs : List Char) : Blanks cs (skipSpace cs) := by
  induction cs with
  | nil => exact .none
  | cons c cs ih =>
    rw [skipSpace, List.dropWhile_cons]
    split
    · rename_i hc
      exact .more (isSpace_iff.mp hc) ih
    · exact .none

theorem skipSpace_of_blanks (h : Blanks cs rest) : skipSpace cs = skipSpace rest := by
  induction h with
  | none => rfl
  | more hc _ ih => rw [skipSpace, List.dropWhile_cons, if_pos (isSpace_iff.mpr hc), ← skipSpace, ih]

theorem skipSpace_eq_nil_iff : skipSpace cs = [] ↔ Blanks cs [] := by
  constructor
  · intro h
    exact h ▸ blanks_skipSpace cs
  · exact skipSpace_of_blanks

/-- What begins with no blank is what is left when the blanks are skipped. -/
theorem skipSpace_eq_cons_iff (hc : isSpace c = false) : skipSpace cs = c :: rest ↔ Blanks cs (c :: rest) := by
  constructor
  · intro h
    exact h ▸ blanks_skipSpace cs
  · intro h
    rw [skipSpace_of_blanks h, skipSpace, List.dropWhile_cons, hc, if_neg Bool.false_ne_true]

end

/-! ## Strings -/

section

variable {x₁ x₂ x₃ x₄ c e : Char} {n : Nat} {cs ds s rest : List Char}

instance (c : Char) (n : Nat) : Decidable (HexDigit c n) := inferInstanceAs (Decidable (_ ∨ _))

theorem HexDigit.lt (h : HexDigit c n) : n < 16 := by
  have hsome : hexDigits[n]?.isSome = true := by
    rcases h with h | h
    · simp [h]
    · rw [← Option.isSome_map, h]
      rfl
  simpa [hexDigits] using hsome

theorem lt_of_hexValue (h : hexValue c = some n) : c.toNat < 103 := by
  have hf : c ≤ 'f' := by
    unfold hexValue at h
    split at h
    · rename_i hc
      exact Char.le_trans hc.2 (by decide)
    · split at h
      · rename_i hc
        exact hc.2
      · split at h
        · rename_i hc
          exact Char.le_trans hc.2 (by decide)
        · cases h
  have hle : c.toNat ≤ 'f'.toNat := UInt32.le_iff_toNat_le.mp hf
  exact Nat.lt_succ_of_le hle

theorem hexValue_iff : hexValue c = some n ↔ HexDigit c n := by
  constructor
  · intro h
    have hall : ∀ k < 103, (hexValue (Char.ofNat k)).all (fun n => HexDigit (Char.ofNat k) n) = true := by decide
    simpa [h] using hall c.toNat (lt_of_hexValue h)
  · intro h
    have hsmall : ∀ n < 16, hexDigits[n]?.bind hexValue = some n := by decide
    have hcapital : ∀ n < 16, (hexDigits[n]?.map Char.toUpper).bind hexValue = some n := by decide
    have hn := h.lt
    rcases h with h | h
    · simpa [h] using hsmall n hn
    · simpa [h] using hcapital n hn

theorem quad_of_hexQuad (h : hexQuad x₁ x₂ x₃ x₄ = some n) (rest : List Char) : Quad (x₁ :: x₂ :: x₃ :: x₄ :: rest) n rest := by
  unfold hexQuad at h
  split at h
  · rename_i a b c d h₁ h₂ h₃ h₄
    rw [hexValue_iff] at h₁ h₂ h₃ h₄
    have hn : n = a * 0x1000 + b * 0x100 + c * 0x10 + d := by
      cases h
      omega
    rw [hn]
    exact .digits h₁ h₂ h₃ h₄
  · cases h

theorem hexQuad_of_quad (h : Quad cs n rest) :
    ∃ x₁ x₂ x₃ x₄, cs = x₁ :: x₂ :: x₃ :: x₄ :: rest ∧ hexQuad x₁ x₂ x₃ x₄ = some n := by
  cases h with
  | digits h₁ h₂ h₃ h₄ =>
    rw [← hexValue_iff] at h₁ h₂ h₃ h₄
    refine ⟨_, _, _, _, rfl, ?_⟩
    simp only [hexQuad, h₁, h₂, h₃, h₄, Option.some.injEq]
    omega

theorem Quad.lt (h : Quad cs n rest) : n < 0x10000 := by
  cases h with
  | digits h₁ h₂ h₃ h₄ =>
    have := h₁.lt
    have := h₂.lt
    have := h₃.lt
    have := h₄.lt
    omega

theorem simpleEscape_iff : simpleEscape e = some c ↔ (e, c) ∈ shortEscapes := by
  unfold simpleEscape shortEscapes
  split <;> simp_all [eq_comm]

theorem consRead_eq_ok {r : Except Error (List Char × List Char)} (h : consRead c r = .ok (s, rest)) :
    ∃ t, r = .ok (t, rest) ∧ s = c :: t := by
  cases r with
  | error e => cases h
  | ok p =>
    cases h
    exact ⟨p.1, rfl, rfl⟩

/-! A character is no surrogate, and is the one its surrogates stand for. -/

theorem isLowSurrogate_iff : isLowSurrogate n = true ↔ 0xDC00 ≤ n ∧ n ≤ 0xDFFF := by simp [isLowSurrogate]

theorem isHighSurrogate_iff : isHighSurrogate n = true ↔ 0xD800 ≤ n ∧ n ≤ 0xDBFF := by simp [isHighSurrogate]

theorem isLowSurrogate_toNat (c : Char) : isLowSurrogate c.toNat = false := by
  have hvalid : c.toNat < 0xD800 ∨ 0xDFFF < c.toNat ∧ c.toNat < 0x110000 := c.valid
  rw [← Bool.not_eq_true, isLowSurrogate_iff]
  omega

theorem isHighSurrogate_toNat (c : Char) : isHighSurrogate c.toNat = false := by
  have hvalid : c.toNat < 0xD800 ∨ 0xDFFF < c.toNat ∧ c.toNat < 0x110000 := c.valid
  rw [← Bool.not_eq_true, isHighSurrogate_iff]
  omega

theorem isHighSurrogate_highSurrogate (c : Char) : isHighSurrogate (highSurrogate c) = true := by
  have hvalid : c.toNat < 0xD800 ∨ 0xDFFF < c.toNat ∧ c.toNat < 0x110000 := c.valid
  rw [isHighSurrogate_iff, highSurrogate]
  omega

theorem isLowSurrogate_lowSurrogate (c : Char) : isLowSurrogate (lowSurrogate c) = true := by
  rw [isLowSurrogate_iff, lowSurrogate]
  omega

theorem isLowSurrogate_of_isHighSurrogate (h : isHighSurrogate n = true) : isLowSurrogate n = false := by
  rw [isHighSurrogate_iff] at h
  rw [← Bool.not_eq_true, isLowSurrogate_iff]
  omega

theorem surrogatePair_surrogates (h : 0x10000 ≤ c.toNat) : surrogatePair (highSurrogate c) (lowSurrogate c) = c := by
  have hvalue : (highSurrogate c - 0xD800) * 0x400 + (lowSurrogate c - 0xDC00) + 0x10000 = c.toNat := by
    unfold highSurrogate lowSurrogate
    omega
  rw [surrogatePair, hvalue, Char.ofNat_toNat]

/-- A value that belongs to no surrogate is a character's. -/
theorem spelling_scalar (h : Quad cs n rest) (hlow : isLowSurrogate n = false) (hhigh : isHighSurrogate n = false) :
    Spelling ('\\' :: 'u' :: cs) (Char.ofNat n) rest := by
  have hn := h.lt
  have hvalid : n.isValidChar := by
    rw [← Bool.not_eq_true, isLowSurrogate_iff] at hlow
    rw [← Bool.not_eq_true, isHighSurrogate_iff] at hhigh
    unfold Nat.isValidChar
    omega
  refine .scalar ?_
  rwa [Char.toNat_ofNat, if_pos hvalid]

/-- Two surrogates in order are a character's. -/
theorem spelling_surrogates {m : Nat} (h : Quad cs n ('\\' :: 'u' :: ds)) (h' : Quad ds m rest)
    (hhigh : isHighSurrogate n = true) (hlow : isLowSurrogate m = true) :
    Spelling ('\\' :: 'u' :: cs) (surrogatePair n m) rest := by
  rw [isHighSurrogate_iff] at hhigh
  rw [isLowSurrogate_iff] at hlow
  have hvalid : ((n - 0xD800) * 0x400 + (m - 0xDC00) + 0x10000).isValidChar := .inr ⟨by omega, by omega⟩
  have hvalue : (surrogatePair n m).toNat = (n - 0xD800) * 0x400 + (m - 0xDC00) + 0x10000 := by
    rw [surrogatePair, Char.toNat_ofNat, if_pos hvalid]
  have hn : highSurrogate (surrogatePair n m) = n := by
    unfold highSurrogate
    omega
  have hm : lowSurrogate (surrogatePair n m) = m := by
    unfold lowSurrogate
    omega
  rw [← hn] at h
  rw [← hm] at h'
  exact .surrogates (by omega) h h'

theorem body_of_readBody (h : readBody cs = .ok (s, rest)) : Body cs s rest := by
  fun_induction readBody cs generalizing s with
  | case2 =>
    cases h
    exact .close
  | case9 x₁ x₂ x₃ x₄ n hn _ hhigh y₁ y₂ y₃ y₄ after m hm hlow _ ih =>
    obtain ⟨t, ht, rfl⟩ := consRead_eq_ok h
    exact .next (spelling_surrogates (quad_of_hexQuad hn _) (quad_of_hexQuad hm _) hhigh hlow) (ih ht)
  | case13 x₁ x₂ x₃ x₄ after n hn hlow hhigh _ ih =>
    obtain ⟨t, ht, rfl⟩ := consRead_eq_ok h
    rw [Bool.not_eq_true] at hlow hhigh
    exact .next (spelling_scalar (quad_of_hexQuad hn _) hlow hhigh) (ih ht)
  | case14 e after _ c hc _ ih =>
    obtain ⟨t, ht, rfl⟩ := consRead_eq_ok h
    exact .next (.short (simpleEscape_iff.mp hc)) (ih ht)
  | case17 c after hquote hbackslash hcontrol ih =>
    obtain ⟨t, ht, rfl⟩ := consRead_eq_ok h
    exact .next (.plain hquote hbackslash (Nat.le_of_not_lt hcontrol)) (ih ht)
  | _ => cases h

/-- However a character is written, it is read. -/
theorem readBody_of_spelling (h : Spelling cs c ds) : readBody cs = consRead c (readBody ds) := by
  cases h with
  | plain hquote hbackslash hprintable =>
    rw [readBody.eq_def]
    dsimp only
    rw [if_neg hquote, if_neg hbackslash, if_neg (Nat.not_lt.mpr hprintable)]
  | @short e _ _ h =>
    have he : e ≠ 'u' := by
      rintro rfl
      simp [shortEscapes] at h
    simp [readBody, simpleEscape_iff.mpr h, he]
  | scalar h =>
    obtain ⟨x₁, x₂, x₃, x₄, rfl, hquad⟩ := hexQuad_of_quad h
    simp [readBody, hquad, isLowSurrogate_toNat, isHighSurrogate_toNat]
  | surrogates hplane h h' =>
    obtain ⟨x₁, x₂, x₃, x₄, rfl, hquad⟩ := hexQuad_of_quad h
    obtain ⟨y₁, y₂, y₃, y₄, rfl, hquad'⟩ := hexQuad_of_quad h'
    have hhigh := isHighSurrogate_highSurrogate c
    have hlow := isLowSurrogate_of_isHighSurrogate hhigh
    simp [readBody, hquad, hlow, hhigh, hquad', isLowSurrogate_lowSurrogate, surrogatePair_surrogates hplane]

theorem readBody_iff : readBody cs = .ok (s, rest) ↔ Body cs s rest := by
  refine ⟨body_of_readBody, fun h => ?_⟩
  induction h with
  | close => exact readBody.eq_def _
  | next hc _ ih =>
    rw [readBody_of_spelling hc, ih]
    rfl

theorem Quad.length_lt (h : Quad cs n rest) : rest.length < cs.length := by
  cases h with
  | digits =>
    simp only [List.length_cons]
    omega

theorem Spelling.length_lt (h : Spelling cs c rest) : rest.length < cs.length := by
  cases h with
  | plain => exact Nat.lt_succ_self _
  | short => exact Nat.lt_add_of_pos_right Nat.two_pos
  | scalar h => exact Nat.lt_add_right 2 h.length_lt
  | surrogates _ h h' =>
    have := h.length_lt
    have := h'.length_lt
    simp only [List.length_cons] at *
    omega

theorem Body.length_lt (h : Body cs s rest) : rest.length < cs.length := by
  induction h with
  | close => simp
  | next hc _ ih => exact Nat.lt_trans ih hc.length_lt

theorem Text.length_lt {s : String} (h : Text cs s rest) : rest.length < cs.length := by
  obtain ⟨body, hcs, hbody⟩ := h
  exact Nat.lt_trans hbody.length_lt hcs.length_le

theorem readText_iff {expected s : String} : readText expected cs = .ok (s, rest) ↔ Text cs s rest := by
  constructor
  · intro h
    unfold readText at h
    split at h
    · cases h
    · rename_i body hcs
      cases hbody : readBody body with
      | error e =>
        rw [hbody] at h
        cases h
      | ok r =>
        rw [hbody] at h
        cases h
        refine ⟨body, (skipSpace_eq_cons_iff rfl).mp hcs, ?_⟩
        rw [String.toList_ofList]
        exact readBody_iff.mp hbody
    · cases h
  · rintro ⟨body, hcs, hbody⟩
    rw [readText, (skipSpace_eq_cons_iff rfl).mpr hcs]
    show (readBody body).map _ = _
    rw [readBody_iff.mpr hbody]
    show Except.ok (String.ofList s.toList, rest) = _
    rw [String.ofList_toList]

theorem readColon_iff : readColon cs = .ok rest ↔ Blanks cs (':' :: rest) := by
  rw [← skipSpace_eq_cons_iff rfl]
  unfold readColon
  constructor
  · intro h
    split at h
    · cases h
    · rename_i hcs
      cases h
      exact hcs
    · cases h
  · intro h
    rw [h]
    rfl

theorem Text.of_blanks {s : String} (h : Blanks cs ds) (h' : Text ds s rest) : Text cs s rest := by
  obtain ⟨body, hds, hbody⟩ := h'
  exact ⟨body, h.trans hds, hbody⟩

end

/-! ## Lists -/

section

variable {cs ds rest : List Char} {first : Bool} {s : String} {values : List String}

theorem closeList_iff : closeList cs = .ok rest ↔ Blanks cs (']' :: rest) := by
  rw [← skipSpace_eq_cons_iff rfl]
  unfold closeList
  constructor
  · intro h
    split at h
    · cases h
    · rename_i hcs
      cases h
      exact hcs
    · split at h <;> cases h
    · cases h
  · intro h
    rw [h]
    rfl

theorem nextItem_eq_none_iff : nextItem first cs = .ok none ↔ ∃ rest, Blanks cs (']' :: rest) := by
  constructor
  · intro h
    unfold nextItem at h
    split at h
    · cases h
    · rename_i rest hcs
      exact ⟨rest, (skipSpace_eq_cons_iff rfl).mp hcs⟩
    · split at h
      · cases h
      · split at h
        · split at h <;> cases h
        · cases h
  · rintro ⟨rest, h⟩
    rw [nextItem, (skipSpace_eq_cons_iff rfl).mpr h]
    rfl

/-- A string begins with something that is no bracket. -/
theorem Text.skipSpace (h : Text cs s rest) : ∃ body, skipSpace cs = '"' :: body ∧ Text (skipSpace cs) s rest := by
  obtain ⟨body, hcs, hbody⟩ := h
  have hskip := (skipSpace_eq_cons_iff rfl).mpr hcs
  refine ⟨body, hskip, body, ?_, hbody⟩
  rw [hskip]
  exact .none

/-- The first string stands right behind the opening bracket, and any other behind a comma. -/
theorem nextItem_eq_some (h : nextItem first cs = .ok (some ds)) :
    first = true ∧ Blanks cs ds ∨ first = false ∧ ∃ es, Blanks cs (',' :: es) ∧ Blanks es ds := by
  unfold nextItem at h
  split at h
  · cases h
  · cases h
  · split at h
    · rename_i hfirst
      cases h
      exact .inl ⟨hfirst, blanks_skipSpace cs⟩
    · rename_i hfirst
      rw [Bool.not_eq_true] at hfirst
      split at h
      · rename_i es hcs
        have hes : ds = Json.skipSpace es := by
          split at h
          · cases h
          · cases h
          · cases h
            rfl
        exact .inr ⟨hfirst, es, (skipSpace_eq_cons_iff rfl).mp hcs, hes ▸ blanks_skipSpace es⟩
      · cases h

theorem items_texts_nil_iff : Items Text ']' first cs [] rest ↔ Blanks cs (']' :: rest) := by
  constructor
  · intro h
    cases h with
    | close h => exact h
  · exact .close

theorem items_texts_cons_iff : Items Text ']' first cs (s :: values) rest ↔
    ∃ ds es, nextItem first cs = .ok (some ds) ∧ Text ds s es ∧ Items Text ']' false es values rest := by
  constructor
  · intro h
    cases h with
    | first htext hitems =>
      obtain ⟨body, hskip, htext⟩ := htext.skipSpace
      refine ⟨_, _, ?_, htext, hitems⟩
      rw [nextItem, hskip]
      rfl
    | @next _ _ _ ds _ _ hcomma htext hitems =>
      obtain ⟨body, hskip, htext⟩ := htext.skipSpace
      refine ⟨_, _, ?_, htext, hitems⟩
      simp [nextItem, (skipSpace_eq_cons_iff rfl).mpr hcomma, hskip]
  · rintro ⟨ds, es, hnext, htext, hitems⟩
    rcases nextItem_eq_some hnext with ⟨rfl, hblanks⟩ | ⟨rfl, fs, hcomma, hblanks⟩
    · exact .first (htext.of_blanks hblanks) hitems
    · exact .next hcomma (htext.of_blanks hblanks) hitems

/-- A list is read, and nothing else, as long as there are no more strings in it than expected. -/
theorem readList_iff (expected : List String) :
    (∃ ds, readItems expected first cs = .ok (values, ds) ∧ closeList ds = .ok rest) ↔
      Items Text ']' first cs values rest ∧ values.length ≤ expected.length := by
  induction expected generalizing first cs values with
  | nil =>
    constructor
    · rintro ⟨ds, hitems, hclose⟩
      cases hitems
      exact ⟨.close (closeList_iff.mp hclose), Nat.le_refl _⟩
    · rintro ⟨hitems, hlen⟩
      cases List.length_eq_zero_iff.mp (Nat.le_zero.mp hlen)
      exact ⟨cs, rfl, closeList_iff.mpr (items_texts_nil_iff.mp hitems)⟩
  | cons e more ih =>
    constructor
    · rintro ⟨ds, hitems, hclose⟩
      obtain ⟨next, hnext, hitems⟩ := bind_eq_ok hitems
      cases next with
      | none =>
        cases hitems
        exact ⟨.close (closeList_iff.mp hclose), Nat.zero_le _⟩
      | some cs' =>
        obtain ⟨⟨s, es⟩, htext, hitems⟩ := @bind_eq_ok _ _ (readText e cs') _ _ hitems
        obtain ⟨⟨ss, fs⟩, hrest, hitems⟩ := @bind_eq_ok _ _ (readItems more false es) _ _ hitems
        cases hitems
        obtain ⟨hitems, hlen⟩ := ih.mp ⟨_, hrest, hclose⟩
        exact ⟨items_texts_cons_iff.mpr ⟨cs', es, hnext, readText_iff.mp htext, hitems⟩, Nat.succ_le_succ hlen⟩
    · rintro ⟨hitems, hlen⟩
      unfold readItems
      cases values with
      | nil =>
        have hclose := items_texts_nil_iff.mp hitems
        rw [nextItem_eq_none_iff.mpr ⟨rest, hclose⟩]
        exact ⟨cs, rfl, closeList_iff.mpr hclose⟩
      | cons s values =>
        obtain ⟨ds, es, hnext, htext, hitems⟩ := items_texts_cons_iff.mp hitems
        obtain ⟨fs, hrest, hclose⟩ := ih.mpr ⟨hitems, Nat.le_of_succ_le_succ hlen⟩
        refine ⟨fs, ?_, hclose⟩
        rw [hnext]
        show (readText e ds >>= _) = _
        rw [readText_iff.mpr htext]
        show (readItems more false es >>= _) = _
        rw [hrest]
        rfl

end

/-! ## Objects -/

section

variable {cs ds rest : List Char} {first : Bool} {m : String × String} {members : List (String × String)}

theorem nextKey_eq_none_iff : nextKey first cs = .ok none ↔ ∃ rest, Blanks cs ('}' :: rest) := by
  constructor
  · intro h
    unfold nextKey at h
    split at h
    · cases h
    · rename_i rest hcs
      exact ⟨rest, (skipSpace_eq_cons_iff rfl).mp hcs⟩
    · split at h
      · split at h <;> cases h
      · split at h
        · split at h <;> cases h
        · cases h
  · rintro ⟨rest, h⟩
    rw [nextKey, (skipSpace_eq_cons_iff rfl).mpr h]
    rfl

/-- The first key stands right behind the opening brace, and any other behind a comma. -/
theorem nextKey_eq_some_iff : nextKey first cs = .ok (some ds) ↔
    first = true ∧ Blanks cs ('"' :: ds) ∨ first = false ∧ ∃ es, Blanks cs (',' :: es) ∧ Blanks es ('"' :: ds) := by
  constructor
  · intro h
    unfold nextKey at h
    split at h
    · cases h
    · cases h
    · split at h
      · rename_i hfirst
        split at h
        · rename_i hcs
          cases h
          exact .inl ⟨hfirst, (skipSpace_eq_cons_iff rfl).mp hcs⟩
        · cases h
      · rename_i hfirst
        rw [Bool.not_eq_true] at hfirst
        split at h
        · rename_i es hcs
          split at h
          · cases h
          · rename_i hes
            cases h
            exact .inr ⟨hfirst, es, (skipSpace_eq_cons_iff rfl).mp hcs, (skipSpace_eq_cons_iff rfl).mp hes⟩
          · cases h
          · cases h
        · cases h
  · rintro (⟨rfl, h⟩ | ⟨rfl, es, h, h'⟩)
    · rw [nextKey, (skipSpace_eq_cons_iff rfl).mpr h]
      rfl
    · simp [nextKey, (skipSpace_eq_cons_iff rfl).mpr h, (skipSpace_eq_cons_iff rfl).mpr h']

theorem items_members_nil_iff : Items Member '}' first cs [] rest ↔ Blanks cs ('}' :: rest) := by
  constructor
  · intro h
    cases h with
    | close h => exact h
  · exact .close

theorem items_members_cons_iff : Items Member '}' first cs (m :: members) rest ↔
    ∃ ds es fs gs, nextKey first cs = .ok (some ds) ∧ Body ds m.1.toList es ∧ Blanks es (':' :: fs) ∧ Text fs m.2 gs ∧
      Items Member '}' false gs members rest := by
  constructor
  · intro h
    cases h with
    | first hmember hitems =>
      obtain ⟨es, fs, ⟨ds, hkey, hbody⟩, hcolon, htext⟩ := hmember
      exact ⟨ds, es, fs, _, nextKey_eq_some_iff.mpr (.inl ⟨rfl, hkey⟩), hbody, hcolon, htext, hitems⟩
    | next hcomma hmember hitems =>
      obtain ⟨es, fs, ⟨ds, hkey, hbody⟩, hcolon, htext⟩ := hmember
      exact ⟨ds, es, fs, _, nextKey_eq_some_iff.mpr (.inr ⟨rfl, _, hcomma, hkey⟩), hbody, hcolon, htext, hitems⟩
  · rintro ⟨ds, es, fs, gs, hnext, hbody, hcolon, htext, hitems⟩
    rcases nextKey_eq_some_iff.mp hnext with ⟨rfl, hkey⟩ | ⟨rfl, cs', hcomma, hkey⟩
    · exact .first ⟨es, fs, ⟨ds, hkey, hbody⟩, hcolon, htext⟩ hitems
    · exact .next hcomma ⟨es, fs, ⟨ds, hkey, hbody⟩, hcolon, htext⟩ hitems

theorem length_lt_of_nextKey {es fs gs key : List Char} {value : String} (h : nextKey first cs = .ok (some ds))
    (hkey : Body ds key es) (hcolon : Blanks es (':' :: fs)) (hvalue : Text fs value gs) : gs.length < cs.length := by
  have hds : ds.length < cs.length := by
    rcases nextKey_eq_some_iff.mp h with ⟨-, hcs⟩ | ⟨-, es, hcs, hes⟩
    · exact hcs.length_le
    · have := hcs.length_le
      have := hes.length_le
      simp only [List.length_cons] at *
      omega
  have := hkey.length_lt
  have := hcolon.length_le
  have := hvalue.length_lt
  simp only [List.length_cons] at *
  omega

variable {σ : Type} {member : σ → String → Reader σ} {step : σ → String × String → Option σ} {s t : σ}

/-- The reader of members takes a colon and a string, and goes on from state to state by `step`. -/
def ReadsBy (member : σ → String → Reader σ) (step : σ → String × String → Option σ) : Prop :=
  ∀ s key cs t rest, member s key cs = .ok (t, rest) ↔
    ∃ value ds, Blanks cs (':' :: ds) ∧ Text ds value rest ∧ step s (key, value) = some t

theorem readMembers_iff (h : ReadsBy member step) {n : Nat} (hn : cs.length < n) :
    readMembers member n first s cs = .ok (t, rest) ↔
      ∃ members, Items Member '}' first cs members rest ∧ members.foldlM step s = some t := by
  induction n generalizing first s cs with
  | zero => omega
  | succ n ih =>
    unfold readMembers
    constructor
    · intro hread
      obtain ⟨next, hnext, hread⟩ := bind_eq_ok hread
      cases next with
      | none =>
        obtain ⟨rest', hclose⟩ := nextKey_eq_none_iff.mp hnext
        rw [(skipSpace_eq_cons_iff rfl).mpr hclose] at hread
        cases hread
        exact ⟨[], .close hclose, rfl⟩
      | some ds =>
        obtain ⟨⟨key, es⟩, hbody, hread⟩ := @bind_eq_ok _ _ (readBody ds) _ _ hread
        obtain ⟨⟨u, gs⟩, hmember, hread⟩ := @bind_eq_ok _ _ (member s (String.ofList key) es) _ _ hread
        obtain ⟨value, fs, hcolon, htext, hstep⟩ := (h _ _ _ _ _).mp hmember
        have hkey : Body ds (String.ofList key).toList es := by
          rw [String.toList_ofList]
          exact readBody_iff.mp hbody
        have hlt := length_lt_of_nextKey hnext hkey hcolon htext
        obtain ⟨members, hitems, hfold⟩ := (ih (by omega)).mp hread
        refine ⟨(String.ofList key, value) :: members, ?_, ?_⟩
        · exact items_members_cons_iff.mpr ⟨ds, es, fs, gs, hnext, hkey, hcolon, htext, hitems⟩
        · rw [List.foldlM_cons, hstep]
          exact hfold
    · rintro ⟨members, hitems, hfold⟩
      cases members with
      | nil =>
        have hclose := items_members_nil_iff.mp hitems
        cases hfold
        rw [nextKey_eq_none_iff.mpr ⟨rest, hclose⟩]
        show Except.ok (_, (skipSpace cs).drop 1) = _
        rw [(skipSpace_eq_cons_iff rfl).mpr hclose]
        rfl
      | cons m members =>
        obtain ⟨ds, es, fs, gs, hnext, hbody, hcolon, htext, hitems⟩ := items_members_cons_iff.mp hitems
        rw [List.foldlM_cons] at hfold
        obtain ⟨u, hstep, hfold⟩ := Option.bind_eq_some_iff.mp hfold
        have hlt := length_lt_of_nextKey hnext hbody hcolon htext
        have hmember : member s m.1 es = .ok (u, gs) := (h _ _ _ _ _).mpr ⟨m.2, fs, hcolon, htext, hstep⟩
        rw [hnext]
        show (readBody ds >>= _) = _
        rw [readBody_iff.mpr hbody]
        show (member s (String.ofList m.1.toList) es >>= _) = _
        rw [String.ofList_toList, hmember]
        exact (ih (by omega)).mpr ⟨members, hitems, hfold⟩

/-- An object of strings is read, and nothing else. -/
theorem readObject_iff (h : ReadsBy member step) : readObject member s cs = .ok (t, rest) ↔
    ∃ members, Items Member '}' true cs members rest ∧ members.foldlM step s = some t :=
  readMembers_iff h (Nat.lt_succ_self _)

end

/-- A whole text is one value with blanks around it. -/
theorem readAll_iff {α : Type} {read : Reader α} {text : String} {a : α} :
    readAll read text = .ok a ↔ ∃ rest, read text.toList = .ok (a, rest) ∧ Blanks rest [] := by
  unfold readAll
  constructor
  · intro h
    obtain ⟨⟨b, rest⟩, hread, h⟩ := bind_eq_ok h
    dsimp only at h
    split at h
    · rename_i hrest
      cases h
      exact ⟨rest, hread, skipSpace_eq_nil_iff.mp hrest⟩
    · cases h
  · rintro ⟨rest, hread, hrest⟩
    rw [hread, ok_bind]
    dsimp only
    rw [skipSpace_eq_nil_iff.mpr hrest]
    rfl

end BuildGraph.Json

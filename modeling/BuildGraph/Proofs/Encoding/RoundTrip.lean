/-
  BuildGraph.Proofs.Encoding.RoundTrip: what is written as JSON is read back.

  All that is written is a string or an object of strings. A string is read back character by character,
  whether a character was written as it is or as an escape. An object is read back member by member: if
  each member, read as it is written, takes the reader on to its next state (`Takes`), the object takes it
  to the last one.

  - `Json.readBody_encode` / `Json.readObject_written`: strings and objects.
  - `Json.read_written`: settings, locations, attribute sets and names.
-/

import BuildGraph.Encoding.Attributes
import BuildGraph.Encoding.Location
import BuildGraph.Proofs.Json.Grammar
import BuildGraph.Settings

namespace BuildGraph

namespace Json

/-! ## Strings -/

theorem hexValue_hexDigit : ∀ n < 16, hexValue (hexDigit n) = some n := by decide

/-- The way in which a character is written is one of those in which it may be. -/
theorem spelling_encodeChar (c : Char) (cs : List Char) : Spelling (encodeChar c ++ cs) c cs := by
  unfold encodeChar
  split
  case h_8 hquote hbackslash _ _ _ _ _ =>
    split
    · rename_i hcontrol
      have hquad : hexQuad '0' '0' (hexDigit (c.toNat / 16)) (hexDigit (c.toNat % 16)) = some c.toNat := by
        have hzero : hexValue '0' = some 0 := rfl
        rw [hexQuad, hzero, hexValue_hexDigit _ (by omega), hexValue_hexDigit _ (by omega)]
        simp only [Option.some.injEq]
        omega
      exact .scalar (quad_of_hexQuad hquad cs)
    · rename_i hplain
      exact .plain hquote hbackslash (Nat.le_of_not_lt hplain)
  all_goals exact .short (by simp [shortEscapes])

theorem readBody_encode (cs rest : List Char) : readBody (encode cs ++ '"' :: rest) = .ok (cs, rest) := by
  induction cs with
  | nil => exact readBody.eq_def _
  | cons c cs ih =>
    have hcons : encode (c :: cs) = encodeChar c ++ encode cs := rfl
    rw [hcons, List.append_assoc, readBody_of_spelling (spelling_encodeChar c _), ih]
    rfl

theorem skipSpace_cons {c : Char} (h : isSpace c = false) (cs : List Char) : skipSpace (c :: cs) = c :: cs := by
  simp [skipSpace, h]

theorem readColon_cons (cs : List Char) : readColon (':' :: cs) = .ok cs := readColon_iff.mpr .none

theorem toList_quote (s : String) (rest : List Char) :
    (quote s).toList ++ rest = '"' :: (encode s.toList ++ '"' :: rest) := by
  simp [quote]

/-- A written string is read back, wherever a string is expected. -/
theorem readText_quote (expected s : String) (rest : List Char) :
    readText expected ((quote s).toList ++ rest) = .ok (s, rest) := by
  rw [toList_quote]
  exact readText_iff.mpr ⟨_, .none, readBody_iff.mp (readBody_encode s.toList rest)⟩

/-! ## Objects of strings -/

/-- The written form of a member. -/
def writeMember (e : String × String) : String := quote e.1 ++ ":" ++ quote e.2

/-- The written form of an object of strings. -/
def writeObject (members : List (String × String)) : String :=
  "\x7b" ++ ",".intercalate (members.map writeMember) ++ "\x7d"

/-- The members as they are written, with a comma before each but the first of an object. -/
def writtenMembers : Bool → List (String × String) → List Char
  | _, [] => []
  | first, e :: rest => (if first then [] else [',']) ++ (writeMember e).toList ++ writtenMembers false rest

theorem intercalate_writeMember (e : String × String) (rest : List (String × String)) :
    [','].intercalate ((writeMember e).toList :: rest.map (String.toList ∘ writeMember)) = writtenMembers true (e :: rest) := by
  induction rest generalizing e with
  | nil => simp [writtenMembers]
  | cons e' rest ih =>
    rw [List.map_cons, Function.comp_apply, List.intercalate_cons_cons, ih e']
    simp [writtenMembers]

theorem toList_writeObject (members : List (String × String)) :
    (writeObject members).toList = '{' :: (writtenMembers true members ++ ['}']) := by
  unfold writeObject
  rw [String.toList_append, String.toList_append, String.toList_intercalate, List.map_map]
  cases members with
  | nil => rfl
  | cons e rest =>
    rw [← intercalate_writeMember]
    rfl

theorem writeMember_pos (e : String × String) : 1 ≤ (writeMember e).toList.length := by
  simp [writeMember, quote]

theorem length_le_writtenMembers (first : Bool) (members : List (String × String)) :
    members.length ≤ (writtenMembers first members).length := by
  induction members generalizing first with
  | nil => exact Nat.le_refl _
  | cons e rest ih =>
    have hfirst := writeMember_pos e
    have hrest := ih false
    simp only [writtenMembers, List.length_cons, List.length_append]
    omega

/-- Each member, read as it is written, takes the reader of members on to the next state. -/
inductive Takes {σ : Type} (member : σ → String → Reader σ) : σ → List (String × String) → σ → Prop
  | none {s : σ} : Takes member s [] s
  | next {s t u : σ} {e : String × String} {es : List (String × String)} :
    (∀ rest, member s e.1 (':' :: ((quote e.2).toList ++ rest)) = .ok (t, rest)) → Takes member t es u →
    Takes member s (e :: es) u

section

variable {σ : Type} {member : σ → String → Reader σ} {s t : σ} {members : List (String × String)}

theorem nextKey_written (first : Bool) (cs : List Char) :
    nextKey first ((if first then [] else [',']) ++ '"' :: cs) = .ok (some cs) := by
  cases first <;> simp [nextKey, skipSpace_cons, isSpace]

theorem readMembers_written (h : Takes member s members t) (rest : List Char) {n : Nat} (hn : members.length < n)
    (first : Bool) : readMembers member n first s (writtenMembers first members ++ '}' :: rest) = .ok (t, rest) := by
  induction h generalizing n first with
  | none =>
    cases n with
    | zero => omega
    | succ n => simp [readMembers, writtenMembers, nextKey, skipSpace_cons, isSpace, bind, Except.bind, pure, Except.pure]
  | @next s t u e es hmember _ ih =>
    cases n with
    | zero => omega
    | succ n =>
      have hkey : writtenMembers first (e :: es) ++ '}' :: rest = (if first then [] else [',']) ++
          '"' :: (encode e.1.toList ++ '"' :: (':' :: ((quote e.2).toList ++ (writtenMembers false es ++ '}' :: rest)))) := by
        simp [writtenMembers, writeMember, toList_quote]
      rw [hkey, readMembers, nextKey_written]
      simp only [bind, Except.bind]
      rw [readBody_encode]
      simp only [String.ofList_toList]
      rw [hmember]
      exact ih (by simpa using hn) false

/-- A written object is read back. -/
theorem readObject_written (h : Takes member s members t) (rest : List Char) :
    readObject member s (writtenMembers true members ++ '}' :: rest) = .ok (t, rest) := by
  refine readMembers_written h rest ?_ true
  have := length_le_writtenMembers true members
  simp only [List.length_append]
  omega

end

/-- A text that holds one value and nothing else. -/
theorem readAll_of_read {α : Type} {read : Reader α} {text : String} {a : α} (h : read text.toList = .ok (a, [])) :
    readAll read text = .ok a := readAll_iff.mpr ⟨[], h, .none⟩

end Json

open Json

/-! ## Names -/

theorem nameOfJson_quote (name : String) : nameOfJson (quote name) = .ok name := by
  refine readAll_of_read ?_
  have h := readText_quote nameText name []
  rwa [List.append_nil] at h

/-! ## Attribute sets -/

namespace AttributeSet

/-- A key above all others is placed behind them. -/
theorem place_eq_append {key value : String} {entries : List (String × String)}
    (h : ∀ k ∈ entries.map (·.1), k < key) : place key value entries = entries ++ [(key, value)] := by
  induction entries with
  | nil => rfl
  | cons e rest ih =>
    obtain ⟨he, hrest⟩ := List.forall_mem_cons.mp h
    have hnlt : ¬ key < e.1 := String.lt_asymm he
    have hne : key ≠ e.1 := fun heq => String.lt_irrefl _ (heq ▸ he)
    rw [place, if_neg hnlt, if_neg hne, ih hrest]
    rfl

/-- Entries that are given in order stand as they are given. -/
theorem entries_foldl_set (entries : List (String × String)) (s : AttributeSet)
    (h : ((s.entries ++ entries).map (·.1)).Pairwise (· < ·)) :
    (entries.foldl (fun s e => s.set e.1 e.2) s).entries = s.entries ++ entries := by
  induction entries generalizing s with
  | nil => simp
  | cons e rest ih =>
    have hlast : ∀ k ∈ s.entries.map (·.1), k < e.1 := by
      rw [List.map_append, List.pairwise_append] at h
      exact fun k hk => h.2.2 k hk e.1 (List.mem_cons_self ..)
    have hset : (s.set e.1 e.2).entries = s.entries ++ [e] := place_eq_append hlast
    have happend : s.entries ++ e :: rest = (s.set e.1 e.2).entries ++ rest := by simp [hset]
    rw [List.foldl_cons, happend]
    exact ih _ (happend ▸ h)

theorem ofList_entries (s : AttributeSet) : ofList s.entries = s := by
  have h : (ofList s.entries).entries = s.entries := entries_foldl_set s.entries empty s.sorted
  exact ext_get? fun k => congrArg (List.lookup k) h

theorem takes_readEntry (entries : List (String × String)) (s : AttributeSet) :
    Takes readEntry s entries (entries.foldl (fun s e => s.set e.1 e.2) s) := by
  induction entries generalizing s with
  | nil => exact .none
  | cons e rest ih =>
    refine .next (fun cs => ?_) (ih (s.set e.1 e.2))
    unfold readEntry
    rw [readColon_cons, ok_bind, readText_quote, ok_bind]
    rfl

theorem ofJson_json (s : AttributeSet) : ofJson s.json = .ok s := by
  have hjson : s.json = writeObject s.entries := rfl
  refine readAll_of_read ?_
  rw [hjson, toList_writeObject, read, skipSpace_cons rfl]
  have h := readObject_written (takes_readEntry s.entries empty) []
  rw [show s.entries.foldl (fun s e => s.set e.1 e.2) empty = s from ofList_entries s] at h
  exact h

end AttributeSet

/-! ## Settings -/

namespace Settings

theorem ofKey?_key (f : Field) : Field.ofKey? f.key = some f := by cases f <;> rfl

/-- Fields that are given for the first time are set, one after another. -/
theorem takes_readMember (s : Settings) {fields given : List Field} (h : (fields ++ given).Nodup) (t : Settings) :
    Takes readMember (given, t) (fields.map fun f => (f.key, f.get s))
      (fields.reverse ++ given, fields.foldl (fun t f => f.set (f.get s) t) t) := by
  induction fields generalizing given t with
  | nil => exact .none
  | cons f fields ih =>
    have hnew : f ∉ given := fun hf => (List.nodup_cons.mp h).1 (List.mem_append_right _ hf)
    have hnext : (fields ++ f :: given).Nodup := (List.perm_middle.nodup_iff).mpr h
    have hrest := ih hnext (f.set (f.get s) t)
    rw [List.reverse_cons, List.append_assoc]
    refine .next (fun cs => ?_) hrest
    unfold readMember
    rw [ofKey?_key]
    dsimp only
    rw [if_neg hnew, readColon_cons, ok_bind, readText_quote, ok_bind]
    rfl

theorem ofJson_json (s : Settings) : ofJson s.json = .ok s := by
  have hjson : s.json = writeObject (Field.all.map fun f => (f.key, f.get s)) := rfl
  have hread : read s.json.toList = .ok (s, []) := by
    rw [hjson, toList_writeObject, read, skipSpace_cons rfl]
    show (readObject readMember ([], {}) (writtenMembers true _ ++ ['}']) >>= fun r => pure (r.1.2, r.2)) = _
    rw [readObject_written (@takes_readMember s Field.all [] (by decide) {}) []]
    rfl
  rw [ofJson, readAll_of_read hread]
  rfl

end Settings

/-! ## Locations -/

namespace Location

theorem locate_parts (l : Location) : l.parts.1.locate l.parts.2 = l := by cases l <;> rfl

theorem read_name (b : LocationBase) (cs : List Char) :
    LocationBase.read ((quote b.name).toList ++ cs) = .ok (b, cs) := by
  have hname : LocationBase.ofName b.name = .ok b := by cases b <;> rfl
  have htext := readText_quote "variant identifier" b.name cs
  rw [toList_quote] at htext ⊢
  rw [LocationBase.read, skipSpace_cons rfl]
  show (readText "variant identifier" _ >>= fun r => LocationBase.ofName r.1 >>= fun b => pure (b, r.2)) = _
  rw [htext, ok_bind, hname]
  rfl

theorem takes_readMember (l : Location) :
    Takes readMember .nothing [("base", l.parts.1.name), ("path", l.parts.2)] (.whole l) := by
  refine .next (t := .base l.parts.1) (fun cs => ?_) (.next (fun cs => ?_) .none)
  · show (readColon (':' :: _) >>= fun cs => LocationBase.read cs >>= fun r => pure (Partial.base r.1, r.2)) = _
    rw [readColon_cons, ok_bind, read_name]
    rfl
  · show (readColon (':' :: _) >>= fun cs => readText pathText cs >>= fun r =>
      pure (Partial.whole (l.parts.1.locate r.1), r.2)) = _
    rw [readColon_cons, ok_bind, readText_quote, ok_bind, locate_parts]
    rfl

theorem ofJson_json (l : Location) : ofJson l.json = .ok l := by
  have hjson : l.json.toList = (writeObject [("base", l.parts.1.name), ("path", l.parts.2)]).toList := by
    simp [json, writeObject, writeMember, quote, encode, encodeChar]
  refine readAll_of_read ?_
  rw [hjson, toList_writeObject, read, skipSpace_cons rfl]
  show (readObject readMember .nothing (writtenMembers true _ ++ ['}']) >>= _) = _
  rw [readObject_written (takes_readMember l) []]
  rfl

end Location

/-- Settings, locations, attribute sets, and the names of attributes, of their values and of plugins are read back from
    their JSON texts as they were, whatever characters are in their strings and paths. -/
theorem Json.read_written :
    (∀ s : Settings, Settings.ofJson s.json = .ok s) ∧ (∀ l : Location, Location.ofJson l.json = .ok l) ∧
      (∀ s : AttributeSet, AttributeSet.ofJson s.json = .ok s) ∧ ∀ name : String, nameOfJson (quote name) = .ok name :=
  ⟨Settings.ofJson_json, Location.ofJson_json, AttributeSet.ofJson_json, nameOfJson_quote⟩

end BuildGraph

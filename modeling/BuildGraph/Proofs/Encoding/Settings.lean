/-
  BuildGraph.Proofs.Encoding.Settings: which texts hold settings, and which settings they hold.

  A text of settings is an object whose keys are known and given once, or a list of values for the first few of the keys
  (`Written`). A key or value may be written with any escapes and anything may have blanks around it; the settings are
  those given, and the defaults for all others.

  - `ofJson_exact`: just these texts are read, as what they give; any other is refused.
-/

import BuildGraph.Proofs.Encoding.RoundTrip
import BuildGraph.Proofs.Json.Grammar

namespace BuildGraph.Settings

open Json

/-- The keys of settings, in the order of a list. -/
def keys : List String := ["name", "group", "project-dir", "build-dir"]

/-- The settings with what `members` give. -/
def override (s : Settings) (members : List (String × String)) : Settings where
  name := (members.lookup "name").getD s.name
  group := (members.lookup "group").getD s.group
  projectDir := ⟨(members.lookup "project-dir").getD s.projectDir.text⟩
  buildDir := ⟨(members.lookup "build-dir").getD s.buildDir.text⟩

/-- A text of settings, and the members it gives. -/
inductive Written : List Char → List (String × String) → Prop
  | object {cs ds rest : List Char} {members : List (String × String)} : Blanks cs ('{' :: ds) →
    Items Member '}' true ds members rest → Blanks rest [] → (∀ m ∈ members, m.1 ∈ keys) →
      (members.map (·.1)).Nodup → Written cs members
  | list {cs ds rest : List Char} {values : List String} : Blanks cs ('[' :: ds) → Items Text ']' true ds values rest →
    Blanks rest [] → values.length ≤ keys.length → Written cs (keys.zip values)

/-! ## Members -/

section

variable {f g : Field} {key value : String} {given : List Field} {s t : Settings} {members : List (String × String)}

theorem ofKey?_eq_some_iff : Field.ofKey? key = some f ↔ f.key = key := by
  constructor
  · intro h
    simpa using List.find?_some h
  · rintro rfl
    exact ofKey?_key f

theorem key_injective : Function.Injective Field.key := by
  intro f g h
  rw [← ofKey?_eq_some_iff, ofKey?_key] at h
  exact (Option.some.inj h).symm

theorem mem_keys_iff : key ∈ keys ↔ ∃ f : Field, f.key = key := by
  constructor
  · intro h
    simp only [keys, List.mem_cons, List.not_mem_nil, or_false] at h
    rcases h with rfl | rfl | rfl | rfl
    · exact ⟨.name, rfl⟩
    · exact ⟨.group, rfl⟩
    · exact ⟨.projectDir, rfl⟩
    · exact ⟨.buildDir, rfl⟩
  · rintro ⟨f, rfl⟩
    cases f <;> simp [keys, Field.key]

/-- Sets the field a member is for, unless it was set before. -/
def setMember (state : List Field × Settings) (m : String × String) : Option (List Field × Settings) :=
  match Field.ofKey? m.1 with
  | none => none
  | some f => if f ∈ state.1 then none else some (f :: state.1, f.set m.2 state.2)

theorem setMember_eq_some_iff {state : List Field × Settings} {m : String × String} :
    setMember (given, s) m = some state ↔ ∃ f, f.key = m.1 ∧ f ∉ given ∧ state = (f :: given, f.set m.2 s) := by
  unfold setMember
  constructor
  · intro h
    split at h
    · cases h
    · rename_i f hf
      split at h
      · cases h
      · rename_i hnew
        exact ⟨f, ofKey?_eq_some_iff.mp hf, hnew, (Option.some.inj h).symm⟩
  · rintro ⟨f, hf, hnew, rfl⟩
    rw [ofKey?_eq_some_iff.mpr hf]
    exact if_neg hnew

theorem readsBy_setMember : ReadsBy readMember setMember := by
  intro state key cs state' rest
  unfold readMember setMember
  dsimp only
  cases Field.ofKey? key with
  | none => simp
  | some f =>
    dsimp only
    by_cases hf : f ∈ state.1
    · simp [hf]
    · simp only [if_neg hf]
      constructor
      · intro h
        obtain ⟨ds, hcolon, h⟩ := bind_eq_ok h
        obtain ⟨⟨value, es⟩, htext, h⟩ := bind_eq_ok h
        cases h
        exact ⟨value, ds, readColon_iff.mp hcolon, readText_iff.mp htext, rfl⟩
      · rintro ⟨value, ds, hcolon, htext, hstate⟩
        cases hstate
        rw [readColon_iff.mpr hcolon]
        show (readText f.expected ds >>= _) = _
        rw [readText_iff.mpr htext]
        rfl

/-- A member sets its field, and no later one sets it again. -/
theorem override_cons (h : f.key ∉ members.map (·.1)) :
    override s ((f.key, value) :: members) = override (f.set value s) members := by
  have hnone : members.lookup f.key = none := by
    rw [List.lookup_eq_none_iff]
    intro m hm
    have hne : f.key ≠ m.1 := fun he => h (List.mem_map.mpr ⟨m, hm, he.symm⟩)
    simpa using hne
  cases f <;> simp only [Field.key] at hnone <;> simp [override, Field.set, Field.key, List.lookup_cons, hnone]

/-- Members are all set if each has a key of its own, and none that was given before. -/
theorem foldlM_setMember_iff :
    (∃ given', members.foldlM setMember (given, s) = some (given', t)) ↔
      (∀ m ∈ members, m.1 ∈ keys) ∧ (members.map (·.1)).Nodup ∧ (∀ f ∈ given, f.key ∉ members.map (·.1)) ∧
        t = override s members := by
  induction members generalizing given s with
  | nil => simp [override, eq_comm]
  | cons m members ih =>
    rw [List.foldlM_cons]
    constructor
    · rintro ⟨given', h⟩
      obtain ⟨state, hm, h⟩ := Option.bind_eq_some_iff.mp h
      obtain ⟨f, hf, hnew, rfl⟩ := setMember_eq_some_iff.mp hm
      obtain ⟨hkeys, hnodup, hgiven, rfl⟩ := ih.mp ⟨given', h⟩
      obtain ⟨hfirst, hothers⟩ := List.forall_mem_cons.mp hgiven
      refine ⟨?_, ?_, ?_, ?_⟩
      · exact List.forall_mem_cons.mpr ⟨mem_keys_iff.mpr ⟨f, hf⟩, hkeys⟩
      · rw [List.map_cons, ← hf]
        exact List.nodup_cons.mpr ⟨hfirst, hnodup⟩
      · intro g hg
        rw [List.map_cons, List.mem_cons, not_or, ← hf]
        refine ⟨fun he => hnew (key_injective he ▸ hg), hothers g hg⟩
      · rw [← override_cons hfirst, hf]
    · rintro ⟨hkeys, hnodup, hgiven, rfl⟩
      obtain ⟨hkey, hkeys⟩ := List.forall_mem_cons.mp hkeys
      obtain ⟨f, hf⟩ := mem_keys_iff.mp hkey
      rw [List.map_cons] at hnodup hgiven
      obtain ⟨hfirst, hnodup⟩ := List.nodup_cons.mp hnodup
      rw [← hf] at hfirst
      have hnew : f ∉ given := fun hg => hgiven f hg (hf ▸ List.mem_cons_self ..)
      have hgiven' : ∀ g ∈ f :: given, g.key ∉ members.map (·.1) := by
        intro g hg
        rcases List.mem_cons.mp hg with rfl | hg
        · exact hfirst
        · exact fun hm => hgiven g hg (List.mem_cons_of_mem _ hm)
      have hvalues : override s (m :: members) = override (f.set m.2 s) members := by rw [← override_cons hfirst, hf]
      obtain ⟨given', h⟩ := ih.mpr ⟨hkeys, hnodup, hgiven', hvalues⟩
      refine ⟨given', ?_⟩
      rw [setMember_eq_some_iff.mpr ⟨f, hf, hnew, rfl⟩]
      exact h

theorem ofValues_eq {values : List String} (h : values.length ≤ keys.length) :
    ofValues values = override {} (keys.zip values) := by
  match values with
  | [] => rfl
  | [_] => rfl
  | [_, _] => rfl
  | [_, _, _] => rfl
  | [_, _, _, _] => rfl
  | _ :: _ :: _ :: _ :: _ :: _ =>
    simp only [keys, List.length_cons, List.length_nil] at h
    omega

end

/-! ## Texts -/

section

variable {cs : List Char} {s : Settings} {members members' : List (String × String)}

theorem read_object_iff {ds rest : List Char} (hcs : Blanks cs ('{' :: ds)) : read cs = .ok (s, rest) ↔
    ∃ members, Items Member '}' true ds members rest ∧ (∀ m ∈ members, m.1 ∈ keys) ∧ (members.map (·.1)).Nodup ∧
      s = override {} members := by
  have hread : read cs = (readObject readMember ([], {}) ds).bind fun r => .ok (r.1.2, r.2) := by
    rw [read, (skipSpace_eq_cons_iff rfl).mpr hcs]
    rfl
  rw [hread]
  constructor
  · intro h
    obtain ⟨⟨⟨given, t⟩, after⟩, hobject, h⟩ := bind_eq_ok h
    cases h
    obtain ⟨members, hitems, hfold⟩ := (readObject_iff readsBy_setMember).mp hobject
    obtain ⟨hkeys, hnodup, -, hvalues⟩ := foldlM_setMember_iff.mp ⟨given, hfold⟩
    exact ⟨members, hitems, hkeys, hnodup, hvalues⟩
  · rintro ⟨members, hitems, hkeys, hnodup, rfl⟩
    have hnew : ∀ f ∈ ([] : List Field), f.key ∉ members.map (·.1) := fun f hf => absurd hf List.not_mem_nil
    obtain ⟨given, hfold⟩ := foldlM_setMember_iff.mpr ⟨hkeys, hnodup, hnew, rfl⟩
    rw [(readObject_iff readsBy_setMember).mpr ⟨members, hitems, hfold⟩]
    rfl

theorem read_list_iff {ds rest : List Char} (hcs : Blanks cs ('[' :: ds)) : read cs = .ok (s, rest) ↔
    ∃ values, Items Text ']' true ds values rest ∧ values.length ≤ keys.length ∧ s = override {} (keys.zip values) := by
  have hread : read cs = (readItems (Field.all.map (·.expected)) true ds).bind fun r =>
      (closeList r.2).bind fun after => .ok (ofValues r.1, after) := by
    rw [read, (skipSpace_eq_cons_iff rfl).mpr hcs]
    rfl
  rw [hread]
  constructor
  · intro h
    obtain ⟨⟨values, es⟩, hvalues, h⟩ := bind_eq_ok h
    obtain ⟨after, hclose, h⟩ := bind_eq_ok h
    cases h
    obtain ⟨hitems, hlen⟩ := (readList_iff _).mp ⟨es, hvalues, hclose⟩
    exact ⟨values, hitems, hlen, ofValues_eq hlen⟩
  · rintro ⟨values, hitems, hlen, rfl⟩
    obtain ⟨es, hvalues, hclose⟩ := (readList_iff (Field.all.map (·.expected))).mpr ⟨hitems, hlen⟩
    rw [hvalues]
    show ((closeList es).bind fun after => Except.ok (ofValues values, after)) = _
    rw [hclose, ← ofValues_eq hlen]
    rfl

theorem read_iff : (∃ rest, read cs = .ok (s, rest) ∧ Blanks rest []) ↔
    ∃ members, Written cs members ∧ s = override {} members := by
  constructor
  · rintro ⟨rest, h, hrest⟩
    have hskip := blanks_skipSpace cs
    cases hcs : skipSpace cs with
    | nil =>
      rw [read, hcs] at h
      cases h
    | cons c ds =>
      rw [hcs] at hskip
      by_cases hlist : c = '['
      · subst hlist
        obtain ⟨values, hitems, hlen, hs⟩ := (read_list_iff hskip).mp h
        exact ⟨_, .list hskip hitems hrest hlen, hs⟩
      · by_cases hobject : c = '{'
        · subst hobject
          obtain ⟨members, hitems, hkeys, hnodup, hs⟩ := (read_object_iff hskip).mp h
          exact ⟨members, .object hskip hitems hrest hkeys hnodup, hs⟩
        · rw [read, hcs] at h
          simp [hlist, hobject] at h
  · rintro ⟨members, hwritten, hs⟩
    cases hwritten with
    | object hcs hitems hrest hkeys hnodup => exact ⟨_, (read_object_iff hcs).mpr ⟨_, hitems, hkeys, hnodup, hs⟩, hrest⟩
    | list hcs hitems hrest hlen => exact ⟨_, (read_list_iff hcs).mpr ⟨_, hitems, hlen, hs⟩, hrest⟩

theorem ofJson_iff {text : String} :
    ofJson text = .ok s ↔ ∃ members, Written text.toList members ∧ s = override {} members := by
  rw [← read_iff, ← readAll_iff, ofJson]
  cases readAll read text with
  | error e =>
    constructor
    · intro h
      cases h
    · intro h
      cases h
  | ok t =>
    constructor
    · intro h
      cases h
      rfl
    · intro h
      cases h
      rfl

theorem zip_keys_sublist (names values : List String) : ((names.zip values).map (·.1)).Sublist names := by
  induction names generalizing values with
  | nil => exact .slnil
  | cons name names ih =>
    cases values with
    | nil => exact List.nil_sublist _
    | cons value values => exact (ih values).cons_cons name

theorem Written.nodup (h : Written cs members) : (members.map (·.1)).Nodup := by
  cases h with
  | object _ _ _ _ hnodup => exact hnodup
  | list => exact List.Nodup.sublist (zip_keys_sublist keys _) (by decide)

theorem lookup_eq_some_iff {key value : String} (h : (members.map (·.1)).Nodup) :
    members.lookup key = some value ↔ (key, value) ∈ members := by
  rw [List.lookup_eq_some_iff]
  constructor
  · rintro ⟨before, after, rfl, -⟩
    simp
  · intro hm
    obtain ⟨before, after, rfl⟩ := List.append_of_mem hm
    refine ⟨before, after, rfl, ?_⟩
    rw [List.map_append, List.nodup_append] at h
    intro m hbefore
    have hne : m.1 ≠ key := h.2.2 _ (List.mem_map_of_mem hbefore) _ (List.mem_cons_self ..)
    simpa using hne.symm

/-- The order in which members are given does not matter. -/
theorem override_perm (h : (members.map (·.1)).Nodup) (hperm : members.Perm members') :
    override s members = override s members' := by
  have hlookup : ∀ key, members.lookup key = members'.lookup key := by
    intro key
    refine Option.ext fun value => ?_
    rw [lookup_eq_some_iff h, lookup_eq_some_iff ((hperm.map _).nodup_iff.mp h), hperm.mem_iff]
  simp [override, hlookup]

end

/-- The settings a text holds are those it gives, and else the defaults; how the text writes them, and in which order,
    does not matter. A text that gives none, for whatever reason, is refused. -/
theorem ofJson_exact :
    (∀ text s, ofJson text = .ok s ↔ ∃ members, Written text.toList members ∧
      s = override { name := "project", group := "", projectDir := ⟨"."⟩, buildDir := ⟨"build"⟩ } members) ∧
    (∀ text, (¬ ∃ members, Written text.toList members) ↔ ∃ cause, ofJson text = .error (.settings cause)) ∧
    ∀ text text' members members', Written text.toList members → Written text'.toList members' → members.Perm members' →
      ofJson text = ofJson text' := by
  refine ⟨fun text s => ofJson_iff, fun text => ?_, fun text text' members members' h h' hperm => ?_⟩
  · constructor
    · intro hnone
      unfold ofJson
      cases hread : readAll read text with
      | error cause => exact ⟨cause, rfl⟩
      | ok s =>
        have hok : ofJson text = .ok s := by
          rw [ofJson, hread]
          rfl
        obtain ⟨members, h, -⟩ := ofJson_iff.mp hok
        exact absurd ⟨members, h⟩ hnone
    · rintro ⟨cause, herror⟩ ⟨members, h⟩
      rw [ofJson_iff.mpr ⟨members, h, rfl⟩] at herror
      cases herror
  · rw [ofJson_iff.mpr ⟨members, h, rfl⟩, ofJson_iff.mpr ⟨members', h', rfl⟩, override_perm h.nodup hperm]

/-- A name alone, as an object and as a list. -/
theorem ofJson_exact_name :
    Written "\x7b\"n\\u0061me\":\"p\"\x7d".toList [("name", "p")] ∧ Written "[ \"p\"]".toList [("name", "p")] ∧
      ofJson "\x7b\"n\\u0061me\":\"p\"\x7d" = ofJson "[ \"p\"]" := by
  have hname : "name".toList = ['n', 'a', 'm', 'e'] := by simp
  have hp : "p".toList = ['p'] := by simp
  have hobject : Written "\x7b\"n\\u0061me\":\"p\"\x7d".toList [("name", "p")] := by
    have hkey : Body ['n', '\\', 'u', '0', '0', '6', '1', 'm', 'e', '"', ':', '"', 'p', '"', '}'] "name".toList
        [':', '"', 'p', '"', '}'] := by
      rw [hname]
      exact readBody_iff.mp rfl
    have hvalue : Body ['p', '"', '}'] "p".toList ['}'] := by
      rw [hp]
      exact readBody_iff.mp rfl
    have hmember : Items Member '}' true _ [("name", "p")] [] :=
      .first ⟨_, _, ⟨_, .none, hkey⟩, .none, ⟨_, .none, hvalue⟩⟩ (.close .none)
    simpa using Written.object .none hmember .none (by decide) (by decide)
  have hlist : Written "[ \"p\"]".toList [("name", "p")] := by
    have hvalue : Body ['p', '"', ']'] "p".toList [']'] := by
      rw [hp]
      exact readBody_iff.mp rfl
    have hvalues : Items Text ']' true _ ["p"] [] :=
      .first ⟨_, .more (List.mem_cons_self : ' ' ∈ _) .none, hvalue⟩ (.close .none)
    simpa [keys] using Written.list .none hvalues .none (by decide)
  exact ⟨hobject, hlist, ofJson_exact.2.2 _ _ _ _ hobject hlist (.refl _)⟩

end BuildGraph.Settings

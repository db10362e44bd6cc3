/-
  BuildGraph.Proofs.Files.Union: what a union of file collections resolves to.

  The search for the files of a union passes over every configuration that the first part looked into,
  with all that is below it. Nothing is lost by that: when the first part is done, what it looked into
  has been dealt with in full (`Gathering.Closed`), so a search of the second part that starts afresh only
  comes upon paths that are there. `Gathering.Joined` relates the two searches of the second part, the one
  that starts afresh and the one that goes on, and both take every turn together (`Collects.joined`).

  - `resolveFiles_append`: the elements of two lists resolve to the paths of the first, then the new
    ones of the second.
  - `resolveFiles_plus`: so does a union of collections, and a collection resolves to what its elements
    resolve to one by one.
-/

import BuildGraph.Proofs.Files.Resolution

namespace BuildGraph

namespace Project

variable {p : Project} {g g' ga : Gathering} {xs ys es : List FileElement} {e : FileElement}
  {r r' : Except ConfigError Gathering}

/-! ## One search after another -/

/-- The search comes to one end only. -/
theorem Collects.unique (h : Collects p g es r) (h' : Collects p g es r') : r = r' := by
  induction h generalizing r' with
  | nil =>
    cases h'
    rfl
  | output hs _ ih =>
    cases h' with
    | output hs' h' =>
      cases hs.symm.trans hs'
      exact ih h'
    | outputMissing hs' => cases hs.symm.trans hs'
  | outputMissing hs =>
    cases h' with
    | output hs' _ => cases hs.symm.trans hs'
    | outputMissing hs' =>
      cases hs.symm.trans hs'
      rfl
  | dir _ ih =>
    cases h' with
    | dir h' => exact ih h'
  | visited hv _ ih =>
    cases h' with
    | visited _ h' => exact ih h'
    | configuration hv' => exact absurd hv hv'
    | configurationFails hv' => exact absurd hv hv'
    | configurationMissing hv' => exact absurd hv hv'
  | configuration hv hdeps _ _ ih₁ ih₂ =>
    cases h' with
    | visited hv' => exact absurd hv' hv
    | configuration _ hdeps' h₁ h₂ =>
      cases hdeps.symm.trans hdeps'
      cases ih₁ h₁
      exact ih₂ h₂
    | configurationFails _ hdeps' h₁ =>
      cases hdeps.symm.trans hdeps'
      cases ih₁ h₁
    | configurationMissing _ hdeps' => cases hdeps.symm.trans hdeps'
  | configurationFails hv hdeps _ ih =>
    cases h' with
    | visited hv' => exact absurd hv' hv
    | configuration _ hdeps' h₁ =>
      cases hdeps.symm.trans hdeps'
      cases ih h₁
    | configurationFails _ hdeps' h₁ =>
      cases hdeps.symm.trans hdeps'
      cases ih h₁
      rfl
    | configurationMissing _ hdeps' => cases hdeps.symm.trans hdeps'
  | configurationMissing hv hdeps =>
    cases h' with
    | visited hv' => exact absurd hv' hv
    | configuration _ hdeps' => cases hdeps.symm.trans hdeps'
    | configurationFails _ hdeps' => cases hdeps.symm.trans hdeps'
    | configurationMissing _ hdeps' =>
      cases hdeps.symm.trans hdeps'
      rfl

theorem Collects.total (p : Project) (g : Gathering) (es : List FileElement) : ∃ r, Collects p g es r :=
  ⟨_, collects_foldlM (p.unvisited g.visited + 1) g es (Nat.lt_succ_self _)⟩

/-- What the search of one list and then of another comes to. -/
inductive Follows (p : Project) (ys : List FileElement) : Except ConfigError Gathering → Except ConfigError Gathering → Prop
  | ok {g : Gathering} {r : Except ConfigError Gathering} : Collects p g ys r → Follows p ys (.ok g) r
  | error {e : ConfigError} : Follows p ys (.error e) (.error e)

theorem Collects.append (h : Collects p g xs r) (hf : Follows p ys r r') : Collects p g (xs ++ ys) r' := by
  induction h with
  | nil =>
    cases hf with
    | ok h' => exact h'
  | output hs _ ih => exact .output hs (ih hf)
  | outputMissing hs =>
    cases hf
    exact .outputMissing hs
  | dir _ ih => exact .dir (ih hf)
  | visited hv _ ih => exact .visited hv (ih hf)
  | configuration hv hdeps hinner _ _ ih => exact .configuration hv hdeps hinner (ih hf)
  | configurationFails hv hdeps hinner _ =>
    cases hf
    exact .configurationFails hv hdeps hinner
  | configurationMissing hv hdeps =>
    cases hf
    exact .configurationMissing hv hdeps

/-- An element that has been dealt with may as well be left out. -/
theorem Collects.skip (he : Handled p g e) (h : Collects p g es r) : Collects p g (e :: es) r := by
  cases e with
  | output name =>
    obtain ⟨s, hs, hall⟩ := he
    refine .output hs ?_
    rw [Distinct.addAll_of_contains hall]
    exact h
  | dir l =>
    refine .dir ?_
    rw [Distinct.add_of_contains he]
    exact h
  | configuration name => exact .visited he h

theorem Collects.skip_all (h : ∀ e ∈ es, Handled p g e) : Collects p g es (.ok g) := by
  induction es with
  | nil => exact .nil
  | cons e es ih =>
    refine .skip (h e (List.mem_cons_self ..)) (ih fun e' he' => ?_)
    exact h e' (List.mem_cons_of_mem _ he')

/-- So it makes no difference whether equal elements are listed. -/
theorem Collects.of_addAll (h : Collects p g (Distinct.addAll xs ys) r) : Collects p g (xs ++ ys) r := by
  induction ys generalizing xs with
  | nil => simpa using h
  | cons y ys ih =>
    have hrest : Collects p g (Distinct.add xs y ++ ys) r := ih h
    cases hy : xs.contains y with
    | false => simpa [Distinct.add_of_not_contains hy] using hrest
    | true =>
      rw [Distinct.add_of_contains hy] at hrest
      obtain ⟨r₁, h₁⟩ := Collects.total p g xs
      cases r₁ with
      | error e =>
        cases hrest.unique (h₁.append .error)
        exact h₁.append .error
      | ok g₁ =>
        -- the element equal to `y` has been dealt with when `y` is come to
        obtain ⟨x, hx, hyx⟩ := List.contains_iff_exists_mem_beq.mp hy
        have hhandled : Handled p g₁ y := ((h₁.complete g₁ rfl).handled x hx).congr (BEq.symm hyx)
        obtain ⟨r₂, h₂⟩ := Collects.total p g₁ ys
        cases hrest.unique (h₁.append (.ok h₂))
        exact h₁.append (.ok (h₂.skip hhandled))

/-! ## A search that starts afresh and one that goes on -/

/-- All that was looked into has been dealt with in full. -/
def Closed (p : Project) (g : Gathering) : Prop :=
  ∀ name ∈ g.visited, ∃ deps, p.configurations.dependencyClosure name = .ok deps ∧
    ∀ e ∈ deps.flatMap Dependency.elements, Handled p g e

/-- `g'` is what `g` found, after what `ga` found. -/
structure Joined (ga g g' : Gathering) : Prop where
  paths : g'.paths = Distinct.addAll ga.paths g.paths
  visited : ∀ name, name ∈ g'.visited ↔ name ∈ ga.visited ∨ name ∈ g.visited

/-- The same error, or findings that are joined. -/
inductive Agrees (ga : Gathering) : Except ConfigError Gathering → Except ConfigError Gathering → Prop
  | ok {g g' : Gathering} : Joined ga g g' → Agrees ga (.ok g) (.ok g')
  | error {e : ConfigError} : Agrees ga (.error e) (.error e)

theorem Joined.addAll (h : Joined ga g g') (new : List Path) :
    Joined ga { g with paths := Distinct.addAll g.paths new } { g' with paths := Distinct.addAll g'.paths new } := by
  refine ⟨?_, h.visited⟩
  rw [Distinct.addAll_addAll, h.paths]

theorem Joined.visit (h : Joined ga g g') (name : String) :
    Joined ga { g with visited := name :: g.visited } { g' with visited := name :: g'.visited } := by
  refine ⟨h.paths, fun other => ?_⟩
  rw [List.mem_cons, List.mem_cons, h.visited]
  exact or_left_comm

/-- Starting afresh, a configuration is looked into that the other search passes over. -/
theorem Joined.revisit (h : Joined ga g g') {name : String} (hname : name ∈ ga.visited) :
    Joined ga { g with visited := name :: g.visited } g' := by
  refine ⟨h.paths, fun other => ?_⟩
  rw [List.mem_cons, h.visited]
  constructor
  · rintro (ho | ho)
    · exact .inl ho
    · exact .inr (.inr ho)
  · rintro (ho | rfl | ho)
    · exact .inl ho
    · exact .inl hname
    · exact .inr ho

/-- What `ga` has dealt with has been dealt with by the search that goes on from it. -/
theorem Joined.handled (h : Joined ga g g') (he : Handled p ga e) : Handled p g' e := by
  refine he.mono (fun x hx => ?_) fun name hname => (h.visited name).mpr (.inl hname)
  rw [h.paths, Distinct.contains_addAll, hx, Bool.true_or]

/-- Below a configuration that is passed over, the search that starts afresh finds nothing new. -/
theorem Agrees.below (hc : Closed p ga) (hj : Joined ga g g') {name : String} (hname : name ∈ ga.visited)
    {deps : List Dependency} (hdeps : p.configurations.dependencyClosure name = .ok deps)
    (h : Collects p g' (deps.flatMap Dependency.elements) r') (ha : Agrees ga r r') :
    ∃ g₁, r = .ok g₁ ∧ Joined ga g₁ g' := by
  obtain ⟨deps', hdeps', hall⟩ := hc name hname
  cases hdeps.symm.trans hdeps'
  cases h.unique (Collects.skip_all fun e he => hj.handled (hall e he))
  cases ha with
  | ok hj₁ => exact ⟨_, rfl, hj₁⟩

/-- Whatever is searched afresh can be searched going on from `ga`, and agrees. -/
theorem Collects.joined (h : Collects p g es r) (hc : Closed p ga) (hj : Joined ga g g') :
    ∃ r', Collects p g' es r' ∧ Agrees ga r r' := by
  induction h generalizing g' with
  | nil => exact ⟨_, .nil, .ok hj⟩
  | output hs _ ih =>
    obtain ⟨r', h', ha⟩ := ih (hj.addAll _)
    exact ⟨r', .output hs h', ha⟩
  | outputMissing hs => exact ⟨_, .outputMissing hs, .error⟩
  | dir _ ih =>
    obtain ⟨r', h', ha⟩ := ih (hj.addAll [_])
    exact ⟨r', .dir h', ha⟩
  | visited hv _ ih =>
    obtain ⟨r', h', ha⟩ := ih hj
    exact ⟨r', .visited ((hj.visited _).mpr (.inr hv)) h', ha⟩
  | @configuration g g₁ name es deps r hv hdeps _ _ ih₁ ih₂ =>
    by_cases hv' : name ∈ g'.visited
    · have hname : name ∈ ga.visited := ((hj.visited name).mp hv').resolve_right hv
      obtain ⟨r₁, h₁, ha₁⟩ := ih₁ (hj.revisit hname)
      obtain ⟨_, ⟨⟩, hj₁⟩ := ha₁.below hc hj hname hdeps h₁
      obtain ⟨r', h', ha⟩ := ih₂ hj₁
      exact ⟨r', .visited hv' h', ha⟩
    · obtain ⟨_, h₁, ha₁⟩ := ih₁ (hj.visit name)
      cases ha₁ with
      | ok hj₁ =>
        obtain ⟨r', h', ha⟩ := ih₂ hj₁
        exact ⟨r', .configuration hv' hdeps h₁ h', ha⟩
  | @configurationFails g name es deps e hv hdeps _ ih =>
    by_cases hv' : name ∈ g'.visited
    · have hname : name ∈ ga.visited := ((hj.visited name).mp hv').resolve_right hv
      obtain ⟨r₁, h₁, ha₁⟩ := ih (hj.revisit hname)
      obtain ⟨_, hok, -⟩ := ha₁.below hc hj hname hdeps h₁
      cases hok
    · obtain ⟨_, h₁, ha₁⟩ := ih (hj.visit name)
      cases ha₁ with
      | error => exact ⟨_, .configurationFails hv' hdeps h₁, .error⟩
  | @configurationMissing g name es e hv hdeps =>
    have hv' : name ∉ g'.visited := by
      intro hv'
      obtain ⟨deps, hok, -⟩ := hc name (((hj.visited name).mp hv').resolve_right hv)
      cases hdeps.symm.trans hok
    exact ⟨_, .configurationMissing hv' hdeps, .error⟩

/-! ## Resolving a union -/

theorem Collects.resolveFiles {c : FileCollection} (h : Collects p {} c.elements r) :
    p.resolveFiles c = r.map (·.paths) := by
  obtain ⟨r₀, h₀, hres⟩ := p.exists_collects c
  cases h.unique h₀
  exact hres

theorem Done.closed (h : Done p {} es g) : Closed p g := fun name hname => h.expanded name hname (by simp)

theorem resolveFiles_append (p : Project) (xs ys : List FileElement) :
    p.resolveFiles ⟨xs ++ ys⟩ = (do
      let as ← p.resolveFiles ⟨xs⟩
      let bs ← p.resolveFiles ⟨ys⟩
      pure (Distinct.addAll as bs)) := by
  obtain ⟨ra, ha, hra⟩ := p.exists_collects ⟨xs⟩
  rw [hra]
  cases ra with
  | error e => exact Collects.resolveFiles (ha.append .error)
  | ok ga =>
    obtain ⟨rb, hb, hrb⟩ := p.exists_collects ⟨ys⟩
    rw [hrb]
    have hstart : Joined ga {} ga := ⟨rfl, fun name => by simp⟩
    obtain ⟨r', h', hagrees⟩ := hb.joined (ha.complete ga rfl).closed hstart
    rw [Collects.resolveFiles (ha.append (.ok h'))]
    cases hagrees with
    | ok hj => exact congrArg Except.ok hj.paths
    | error => rfl

/-- Adds to `found` what `e` resolves to by itself. -/
def addResolved (p : Project) (found : List Path) (e : FileElement) : Except ConfigError (List Path) :=
  (p.resolveFiles (.of e)).map (Distinct.addAll found)

theorem resolveFiles_append_foldlM (p : Project) (xs es : List FileElement) :
    p.resolveFiles ⟨xs ++ es⟩ = (p.resolveFiles ⟨xs⟩ >>= fun found => es.foldlM p.addResolved found) := by
  induction es generalizing xs with
  | nil =>
    rw [List.append_nil]
    cases p.resolveFiles ⟨xs⟩ <;> rfl
  | cons e es ih =>
    have hfirst : xs ++ e :: es = (xs ++ [e]) ++ es := by simp
    rw [hfirst, ih, resolveFiles_append]
    cases p.resolveFiles ⟨xs⟩ with
    | error err => rfl
    | ok found =>
      show ((p.resolveFiles (.of e) >>= fun new => .ok (Distinct.addAll found new)) >>= es.foldlM p.addResolved) =
        (p.addResolved found e >>= es.foldlM p.addResolved)
      rw [addResolved]
      cases p.resolveFiles (.of e) <;> rfl

/-- The paths that a collection resolves to differ from each other. -/
theorem resolveFiles_pairwise {c : FileCollection} {paths : List Path} (h : p.resolveFiles c = .ok paths) :
    paths.Pairwise fun x y => (x == y) = false := by
  obtain ⟨r, hr, hres⟩ := p.exists_collects c
  cases r with
  | error e => cases hres.symm.trans h
  | ok g =>
    cases hres.symm.trans h
    exact hr.pairwise .nil g rfl

/-- A union fails as its first part does, else as its second part does, and resolves otherwise to the paths of the
    first part, then those of the second that are not equal to one of them. A collection resolves to what its elements
    resolve to one by one: that configurations are looked into once for all of them cannot be seen. -/
theorem resolveFiles_plus (p : Project) (a b : FileCollection) :
    (p.resolveFiles (a.plus b) =
        match p.resolveFiles a with
        | .error e => .error e
        | .ok xs =>
          match p.resolveFiles b with
          | .error e => .error e
          | .ok ys => .ok (xs ++ ys.filter fun y => !xs.contains y)) ∧
      ∀ c, p.resolveFiles c = c.elements.foldlM p.addResolved [] := by
  refine ⟨?_, fun c => p.resolveFiles_append_foldlM [] c.elements⟩
  obtain ⟨r, hr, hres⟩ := p.exists_collects (a.plus b)
  have happend : p.resolveFiles (a.plus b) = p.resolveFiles ⟨a.elements ++ b.elements⟩ := by
    rw [hres]
    exact (Collects.resolveFiles hr.of_addAll).symm
  rw [happend, resolveFiles_append]
  show (p.resolveFiles a >>= fun xs => p.resolveFiles b >>= fun ys => pure (Distinct.addAll xs ys)) = _
  cases p.resolveFiles a with
  | error e => rfl
  | ok xs =>
    cases hb : p.resolveFiles b with
    | error e => rfl
    | ok ys => exact congrArg Except.ok (Distinct.addAll_eq_append_filter (resolveFiles_pairwise hb))

end Project

end BuildGraph

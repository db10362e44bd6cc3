/-
  BuildGraph.Proofs.Operation: operations that may fail, and what they leave behind.

  An operation that fails keeps what it did before it failed. `after` is the state it leaves either
  way, and `Keeps R` says that this state is always related by `R` to the one before. For a
  reflexive and transitive `R` that is so of an operation if it is so of its parts.
-/

namespace BuildGraph.Operation

variable {ε σ α β : Type}

/-! ## Results -/

theorem bind_apply (m : EStateM ε σ α) (f : α → EStateM ε σ β) (s : σ) :
    (m >>= f) s = match m s with
      | .ok a t => f a t
      | .error e t => .error e t := rfl

theorem pure_apply (a : α) (s : σ) : (pure a : EStateM ε σ α) s = .ok a s := rfl

theorem get_apply (s : σ) : (get : EStateM ε σ σ) s = .ok s s := rfl

theorem modify_apply (f : σ → σ) (s : σ) : (modify f : EStateM ε σ PUnit) s = .ok ⟨⟩ (f s) := rfl

theorem throw_apply (e : ε) (s : σ) : (throw e : EStateM ε σ α) s = .error e s := rfl

theorem bind_of_ok {m : EStateM ε σ α} {f : α → EStateM ε σ β} {s t : σ} {a : α} (h : m s = .ok a t) :
    (m >>= f) s = f a t := by rw [bind_apply, h]

theorem bind_of_error {m : EStateM ε σ α} {f : α → EStateM ε σ β} {s t : σ} {e : ε} (h : m s = .error e t) :
    (m >>= f) s = .error e t := by rw [bind_apply, h]

/-- A sequence that succeeds consists of two parts that do. -/
theorem bind_ok {m : EStateM ε σ α} {f : α → EStateM ε σ β} {s u : σ} {b : β} (h : (m >>= f) s = .ok b u) :
    ∃ a t, m s = .ok a t ∧ f a t = .ok b u := by
  rw [bind_apply] at h
  cases hm : m s with
  | ok a t =>
    rw [hm] at h
    exact ⟨a, t, rfl, h⟩
  | error e t =>
    rw [hm] at h
    cases h

/-- A sequence that fails does so in its first part, or in the second once the first has succeeded. -/
theorem bind_error {m : EStateM ε σ α} {f : α → EStateM ε σ β} {s u : σ} {e : ε} (h : (m >>= f) s = .error e u) :
    m s = .error e u ∨ ∃ a t, m s = .ok a t ∧ f a t = .error e u := by
  rw [bind_apply] at h
  cases hm : m s with
  | ok a t =>
    rw [hm] at h
    exact .inr ⟨a, t, rfl, h⟩
  | error e' t =>
    rw [hm] at h
    cases h
    exact .inl rfl

/-- A sequence succeeds if its first part does, and the second does wherever the first leads. -/
theorem exists_bind_ok {m : EStateM ε σ α} {f : α → EStateM ε σ β} {P : σ → Prop} {s : σ} {a : α} {b : β}
    (hm : ∃ t, m s = .ok a t ∧ P t) (hf : ∀ t, P t → ∃ u, f a t = .ok b u) : ∃ u, (m >>= f) s = .ok b u := by
  obtain ⟨t, ht, hP⟩ := hm
  rw [bind_of_ok ht]
  exact hf t hP

/-! ## The state left behind -/

/-- The state an operation leaves, whether it succeeds or fails. -/
def after (m : EStateM ε σ α) (s : σ) : σ :=
  match m s with
  | .ok _ t => t
  | .error _ t => t

theorem after_of_ok {m : EStateM ε σ α} {s t : σ} {a : α} (h : m s = .ok a t) : after m s = t := by
  rw [after, h]

/-- Once its first part has succeeded, a sequence leaves what the second part leaves. -/
theorem after_bind_of_ok {m : EStateM ε σ α} {f : α → EStateM ε σ β} {s t : σ} {a : α} (h : m s = .ok a t) :
    after (m >>= f) s = after (f a) t := by rw [after, after, bind_of_ok h]

theorem after_of_error {m : EStateM ε σ α} {s t : σ} {e : ε} (h : m s = .error e t) : after m s = t := by
  rw [after, h]

/-- A relation between states that holds of any number of steps if it holds of each. -/
structure Frame (R : σ → σ → Prop) : Prop where
  refl : ∀ s, R s s
  trans : ∀ {s t u}, R s t → R t u → R s u

/-- What held before holds after. -/
abbrev Preserves (P : σ → Prop) (s t : σ) : Prop := P s → P t

theorem preserves_frame (P : σ → Prop) : Frame (Preserves P) := ⟨fun _ h => h, fun h h' hp => h' (h hp)⟩

/-- The state an operation leaves is related to the one it started in. -/
def Keeps (R : σ → σ → Prop) (m : EStateM ε σ α) (s : σ) : Prop := R s (after m s)

namespace Keeps

variable {R : σ → σ → Prop} {m : EStateM ε σ α} {s t : σ} {a : α} {e : ε}

theorem of_ok (h : Keeps R m s) (hm : m s = .ok a t) : R s t := after_of_ok hm ▸ h

theorem of_error (h : Keeps R m s) (hm : m s = .error e t) : R s t := after_of_error hm ▸ h

theorem of_eq_ok (hm : m s = .ok a t) (h : R s t) : Keeps R m s := by
  unfold Keeps
  rw [after_of_ok hm]
  exact h

theorem of_eq_error (hm : m s = .error e t) (h : R s t) : Keeps R m s := by
  unfold Keeps
  rw [after_of_error hm]
  exact h

/-- It does not matter how an operation is written. -/
theorem of_eq {m' : EStateM ε σ α} (he : m s = m' s) (h : Keeps R m' s) : Keeps R m s := by
  unfold Keeps after
  rw [he]
  exact h

/-- What a finer relation keeps. -/
theorem imp {R' : σ → σ → Prop} (h : Keeps R m s) (hi : ∀ t, R s t → R' s t) : Keeps R' m s := hi _ h

theorem of_pure (hR : Frame R) (a : α) (s : σ) : Keeps R (pure a : EStateM ε σ α) s := hR.refl s

theorem of_throw (hR : Frame R) (e : ε) (s : σ) : Keeps R (throw e : EStateM ε σ α) s := hR.refl s

theorem of_modify {f : σ → σ} (h : R s (f s)) : Keeps R (modify f : EStateM ε σ PUnit) s := h

/-- A sequence keeps what both of its parts keep. -/
theorem bind (hR : Frame R) {f : α → EStateM ε σ β} (hm : Keeps R m s)
    (hf : ∀ a t, m s = .ok a t → Keeps R (f a) t) : Keeps R (m >>= f) s := by
  unfold Keeps after
  rw [bind_apply]
  cases h : m s with
  | ok a t => exact hR.trans (hm.of_ok h) (hf a t h)
  | error e t => exact hm.of_error h

/-- The second part may rely on what the first one did, and on what it kept. -/
theorem andThen (hR : Frame R) {f : α → EStateM ε σ β} (hm : Keeps R m s)
    (hf : ∀ a t, m s = .ok a t → R s t → Keeps R (f a) t) : Keeps R (m >>= f) s :=
  .bind hR hm fun a t h => hf a t h (hm.of_ok h)

/-- Where something that held is to hold on, the second part may rely on it at the start and in between. -/
theorem andPreserve {P : σ → Prop} {f : α → EStateM ε σ β} (hm : Keeps (Preserves P) m s)
    (hf : ∀ a t, m s = .ok a t → P s → P t → Keeps (Preserves P) (f a) t) : Keeps (Preserves P) (m >>= f) s := fun hs =>
  Keeps.bind (preserves_frame P) hm (fun a t h => hf a t h hs (hm.of_ok h hs)) hs

/-- What is made of the result changes nothing any more. -/
theorem andReturn (hR : Frame R) {f : α → β} (hm : Keeps R m s) : Keeps R (m >>= fun a => pure (f a)) s :=
  .bind hR hm fun _ _ _ => .of_pure hR _ _

/-- Asking for the state keeps everything. -/
theorem get_bind {f : σ → EStateM ε σ β} (hf : Keeps R (f s) s) : Keeps R (get >>= f) s := hf

theorem foldlM (hR : Frame R) {f : β → α → EStateM ε σ β} (as : List α)
    (hf : ∀ b a s, a ∈ as → Keeps R (f b a) s) (b : β) (s : σ) : Keeps R (as.foldlM f b) s := by
  induction as generalizing b s with
  | nil => exact .of_pure hR b s
  | cons a as ih =>
    rw [List.foldlM_cons]
    exact .bind hR (hf b a s (List.mem_cons_self ..)) fun c t _ =>
      ih (fun b a s ha => hf b a s (List.mem_cons_of_mem _ ha)) c t

theorem forM (hR : Frame R) {f : α → EStateM ε σ PUnit} (as : List α) (hf : ∀ a s, a ∈ as → Keeps R (f a) s) (s : σ) :
    Keeps R (as.forM f) s := by
  induction as generalizing s with
  | nil => exact .of_pure hR _ s
  | cons a as ih =>
    exact .bind hR (hf a s (List.mem_cons_self ..)) fun _ t _ =>
      ih (fun a s ha => hf a s (List.mem_cons_of_mem _ ha)) t

theorem mapM (hR : Frame R) {f : α → EStateM ε σ β} (as : List α) (hf : ∀ a s, Keeps R (f a) s) (s : σ) :
    Keeps R (as.mapM f) s := by
  induction as generalizing s with
  | nil => exact .of_pure hR _ s
  | cons a as ih =>
    rw [List.mapM_cons]
    exact .bind hR (hf a s) fun _ t _ => .bind hR (ih t) fun _ _ _ => .of_pure hR _ _

end Keeps

end BuildGraph.Operation

import Mathlib

/-!
# WasiLibc.Lib.Wp

Weakest preconditions for programs in `StateT σ (Except ε)`.

`wp ok f Q s` says that `f`, run from the state `s`, ends with a result and
a state that satisfy `Q`, or stops with an exception that `ok` admits.  One
equation for each way to build a program turns `wp` of a program into a
proposition about the state; a program that calls another one uses
`wp_mono` with the specification of the callee.
-/

namespace WasiLibc.Wp

variable {σ ε α β : Type} {ok : ε → Prop}

/-- The weakest precondition of `f` for `Q`. -/
def wp (ok : ε → Prop) (f : StateT σ (Except ε) α) (Q : α → σ → Prop) (s : σ) : Prop :=
  match f s with
  | .ok (a, s') => Q a s'
  | .error e => ok e

variable {f : StateT σ (Except ε) α} {g : α → StateT σ (Except ε) β}
  {Q Q' : α → σ → Prop} {s : σ}

/-- The rule of consequence. -/
theorem wp_mono (h : wp ok f Q s) (hQ : ∀ a s', Q a s' → Q' a s') : wp ok f Q' s := by
  unfold wp at *
  split
  case h_1 a s' heq => rw [heq] at h; exact hQ a s' h
  case h_2 e heq => rw [heq] at h; exact h

theorem wp_and (h : wp ok f Q s) (h' : wp ok f Q' s) :
    wp ok f (fun a s' => Q a s' ∧ Q' a s') s := by
  unfold wp at *
  split
  case h_1 a s' heq => rw [heq] at h h'; exact ⟨h, h'⟩
  case h_2 e heq => rw [heq] at h; exact h

@[simp] theorem wp_pure (a : α) : wp ok (pure a) Q s ↔ Q a s := Iff.rfl

@[simp] theorem wp_bind {R : β → σ → Prop} :
    wp ok (f >>= g) R s ↔ wp ok f (fun a s' => wp ok (g a) R s') s := by
  simp only [wp, bind, StateT.bind]
  cases f s with
  | error e => exact Iff.rfl
  | ok p => exact Iff.rfl

@[simp] theorem wp_map {h : α → β} {R : β → σ → Prop} :
    wp ok (h <$> f) R s ↔ wp ok f (fun a s' => R (h a) s') s := by
  simp only [wp, Functor.map, StateT.map, bind, Except.bind]
  cases f s with
  | error e => exact Iff.rfl
  | ok p => exact Iff.rfl

@[simp] theorem wp_get {Q : σ → σ → Prop} : wp ok (get : StateT σ (Except ε) σ) Q s ↔ Q s s :=
  Iff.rfl

@[simp] theorem wp_modify {h : σ → σ} {Q : PUnit → σ → Prop} :
    wp ok (modify h : StateT σ (Except ε) PUnit) Q s ↔ Q ⟨⟩ (h s) := Iff.rfl

@[simp] theorem wp_throw {e : ε} : wp ok (throw e : StateT σ (Except ε) α) Q s ↔ ok e := Iff.rfl

theorem wp_ite {c : Prop} [Decidable c] {f' : StateT σ (Except ε) α} :
    wp ok (if c then f else f') Q s ↔ if c then wp ok f Q s else wp ok f' Q s := by
  split <;> rfl

/-- Stop with `e` unless `c` holds. -/
def require (c : Prop) [Decidable c] (e : ε) : StateT σ (Except ε) PUnit :=
  if c then pure ⟨⟩ else throw e

@[simp] theorem wp_require {c : Prop} [Decidable c] {e : ε} {Q : PUnit → σ → Prop} :
    wp ok (require c e) Q s ↔ (c → Q ⟨⟩ s) ∧ (¬ c → ok e) := by
  unfold require
  by_cases h : c <;> simp [h]

/-- A run that ends satisfies the postcondition. -/
theorem post_of_wp (h : wp ok f Q s) {a : α} {s' : σ} (hrun : f s = .ok (a, s')) : Q a s' := by
  unfold wp at h
  rw [hrun] at h
  exact h

/-- So does the state that a run leaves. -/
theorem state_of_wp {P : σ → Prop} (h : wp ok f (fun _ => P) s) {s' : σ}
    (hrun : (Prod.snd <$> f s).toOption = some s') : P s' := by
  unfold wp at h
  cases hf : f s with
  | error e =>
    rw [hf] at hrun
    cases hrun
  | ok r =>
    rw [hf] at h hrun
    cases hrun
    exact h

/-- A program that no exception can stop ends. -/
theorem exists_ok_of_wp (h : wp (fun _ : ε => False) f Q s) :
    ∃ a s', f s = .ok (a, s') ∧ Q a s' := by
  unfold wp at h
  cases hf : f s with
  | error e => rw [hf] at h; exact h.elim
  | ok p => rw [hf] at h; exact ⟨p.1, p.2, rfl, h⟩

/-- A run that stops does so with an admitted exception. -/
theorem ok_of_wp (h : wp ok f Q s) {e : ε} (hrun : f s = .error e) : ok e := by
  unfold wp at h
  rw [hrun] at h
  exact h

/-! ## Invariants -/

/-- From a state in which `I` holds the program ends in such a state, or
stops with an admitted exception. -/
def Keeps (ok : ε → Prop) (I : σ → Prop) (f : StateT σ (Except ε) α) : Prop :=
  ∀ s, I s → wp ok f (fun _ s' => I s') s

section Keeps

variable {I : σ → Prop}

theorem Keeps.pure (a : α) : Keeps ok I (pure a : StateT σ (Except ε) α) := fun _ h => h

theorem Keeps.throw {e : ε} (he : ok e) : Keeps ok I (throw e : StateT σ (Except ε) α) :=
  fun _ _ => he

theorem Keeps.bind (hf : Keeps ok I f) (hg : ∀ a, Keeps ok I (g a)) : Keeps ok I (f >>= g) :=
  fun s h => wp_bind.mpr (wp_mono (hf s h) fun a s' h' => hg a s' h')

/-- What is read from the state is known of it. -/
theorem Keeps.get {g : σ → StateT σ (Except ε) β} (hg : ∀ s, I s → Keeps ok I (g s)) :
    Keeps ok I (get >>= g) :=
  fun s h => wp_bind.mpr (wp_get.mpr (hg s h s h))

theorem Keeps.modify {h : σ → σ} (hI : ∀ s, I s → I (h s)) :
    Keeps ok I (modify h : StateT σ (Except ε) PUnit) :=
  fun s hs => hI s hs

theorem Keeps.ite {c : Prop} [Decidable c] {f' : StateT σ (Except ε) α}
    (hf : c → Keeps ok I f) (hf' : ¬ c → Keeps ok I f') : Keeps ok I (if c then f else f') := by
  by_cases hc : c
  · rw [if_pos hc]
    exact hf hc
  · rw [if_neg hc]
    exact hf' hc

theorem Keeps.require {c : Prop} [Decidable c] {e : ε} (he : ok e) :
    Keeps ok I (Wp.require c e) :=
  .ite (fun _ => .pure _) fun _ => .throw he

end Keeps

end WasiLibc.Wp

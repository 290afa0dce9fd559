import WasiLibc.Lib.Wp

/-!
# WasiLibc.Lib.Twin

Two runs side by side, for programs in `StateT σ (Except ε)`.

`twin Q f g s t` says that `f` from `s` and `g` from `t` both end, with
results and states related by `Q`, or both stop with the same exception.
`Alike R f g` is the case in which the results are equal and a relation `R`
of the states is kept; its rules follow the structure of the programs.  With
`Only I` for `R` it is an invariant of one run.
-/

namespace WasiLibc.Twin

open Wp

variable {σ ε α β : Type}

/-- The two runs end alike. -/
def twin (Q : α → σ → α → σ → Prop) (f g : StateT σ (Except ε) α) (s t : σ) : Prop :=
  match f s, g t with
  | .ok (a, s'), .ok (b, t') => Q a s' b t'
  | .error e, .error e' => e = e'
  | _, _ => False

/-- From related states the programs give the same result, or stop with the
same exception, and the states stay related. -/
def Alike (R : σ → σ → Prop) (f g : StateT σ (Except ε) α) : Prop :=
  ∀ s t, R s t → twin (fun a s' b t' => a = b ∧ R s' t') f g s t

variable {R : σ → σ → Prop} {f g : StateT σ (Except ε) α} {k l : α → StateT σ (Except ε) β}

theorem Alike.pure (a : α) : Alike R (pure a : StateT σ (Except ε) α) (pure a) :=
  fun _ _ h => ⟨rfl, h⟩

theorem Alike.throw (e : ε) : Alike R (throw e : StateT σ (Except ε) α) (throw e) :=
  fun _ _ _ => rfl

variable {Q : α → σ → α → σ → Prop} {s t : σ}

/-- The two ways to end alike. -/
theorem twin_iff :
    twin Q f g s t ↔ (∃ e, f s = .error e ∧ g t = .error e) ∨
      ∃ a s' b t', f s = .ok (a, s') ∧ g t = .ok (b, t') ∧ Q a s' b t' := by
  unfold twin
  cases hfs : f s with
  | error e =>
    cases hgt : g t with
    | error e' => simp [eq_comm]
    | ok q => simp
  | ok p =>
    obtain ⟨a, s'⟩ := p
    cases hgt : g t with
    | error e' => simp
    | ok q =>
      obtain ⟨b, t'⟩ := q
      refine ⟨fun h => .inr ⟨a, s', b, t', rfl, rfl, h⟩, ?_⟩
      rintro (⟨e, he, -⟩ | ⟨_, _, _, _, hs, ht, h⟩)
      · cases he
      · cases hs
        cases ht
        exact h

/-- The rule for sequences. -/
theorem twin_bind {Q' : β → σ → β → σ → Prop}
    (hf : twin Q f g s t) (hk : ∀ a s' b t', Q a s' b t' → twin Q' (k a) (l b) s' t') :
    twin Q' (f >>= k) (g >>= l) s t := by
  rcases (twin_iff).mp hf with ⟨e, hfs, hgt⟩ | ⟨a, s', b, t', hfs, hgt, hQ⟩
  · refine (twin_iff).mpr (.inl ⟨e, ?_, ?_⟩)
    · simp [Bind.bind, StateT.bind, Except.bind, hfs]
    · simp [Bind.bind, StateT.bind, Except.bind, hgt]
  · have hrest := hk a s' b t' hQ
    simp only [twin, Bind.bind, StateT.bind, Except.bind, hfs, hgt] at hrest ⊢
    exact hrest

theorem twin_get {Q : β → σ → β → σ → Prop} {k l : σ → StateT σ (Except ε) β}
    (h : twin Q (k s) (l t) s t) : twin Q (get >>= k) (get >>= l) s t := h

/-- What is known of the first run. -/
theorem twin_and {A : α → Prop} (hf : twin Q f g s t)
    (hA : wp (fun _ => True) f (fun a _ => A a) s) :
    twin (fun a s' b t' => Q a s' b t' ∧ A a) f g s t := by
  rcases (twin_iff).mp hf with hfail | ⟨a, s', b, t', hfs, hgt, hQ⟩
  · exact (twin_iff).mpr (.inl hfail)
  · exact (twin_iff).mpr (.inr ⟨a, s', b, t', hfs, hgt, hQ, post_of_wp hA hfs⟩)

theorem Alike.bind (hf : Alike R f g) (hk : ∀ a, Alike R (k a) (l a)) :
    Alike R (f >>= k) (g >>= l) := by
  refine fun s t h => twin_bind (hf s t h) ?_
  rintro a s' _ t' ⟨rfl, h'⟩
  exact hk a s' t' h'

/-- The second parts have to agree on results that the first may give. -/
theorem Alike.bind_of {A : α → Prop} (hf : Alike R f g)
    (hA : ∀ s, wp (fun _ => True) f (fun a _ => A a) s) (hk : ∀ a, A a → Alike R (k a) (l a)) :
    Alike R (f >>= k) (g >>= l) := by
  refine fun s t h => twin_bind (twin_and (hf s t h) (hA s)) ?_
  rintro a s' _ t' ⟨⟨rfl, h'⟩, ha⟩
  exact hk a ha s' t' h'

/-- A program that reads the state goes on with two related states. -/
theorem Alike.get {k l : σ → StateT σ (Except ε) β}
    (hk : ∀ s t, R s t → Alike R (k s) (l t)) : Alike R (get >>= k) (get >>= l) :=
  fun s t h => hk s t h s t h

theorem Alike.modify {h h' : σ → σ} (hR : ∀ s t, R s t → R (h s) (h' t)) :
    Alike R (modify h : StateT σ (Except ε) PUnit) (modify h') :=
  fun s t hst => ⟨rfl, hR s t hst⟩

theorem Alike.ite {c d : Prop} [Decidable c] [Decidable d] (hcd : c ↔ d)
    {f' g' : StateT σ (Except ε) α} (hf : Alike R f g) (hg : Alike R f' g') :
    Alike R (if c then f else f') (if d then g else g') := by
  by_cases hc : c
  · rw [if_pos hc, if_pos (hcd.mp hc)]
    exact hf
  · rw [if_neg hc, if_neg (mt hcd.mpr hc)]
    exact hg

theorem Alike.require {c d : Prop} [Decidable c] [Decidable d] (hcd : c ↔ d) (e : ε) :
    Alike R (require c e) (require d e) :=
  .ite hcd (.pure _) (.throw _)

/-- Two states that are one, with an invariant. -/
def Only (I : σ → Prop) (s t : σ) : Prop := s = t ∧ I s

theorem alike_of_keeps {I : σ → Prop} (h : Keeps (fun _ => True) I f) : Alike (Only I) f f := by
  rintro s _ ⟨rfl, hs⟩
  have hpost := h s hs
  unfold wp at hpost
  unfold twin
  cases hfs : f s with
  | error e => rfl
  | ok p => rw [hfs] at hpost; exact ⟨rfl, rfl, hpost⟩

theorem keeps_of_alike {I : σ → Prop} (h : Alike (Only I) f f) : Keeps (fun _ => True) I f := by
  intro s hs
  rcases (twin_iff).mp (h s s ⟨rfl, hs⟩) with ⟨e, hfs, -⟩ | ⟨a, s', b, t', hfs, -, -, -, hs'⟩
  · simp [wp, hfs]
  · simpa [wp, hfs] using hs'

end WasiLibc.Twin

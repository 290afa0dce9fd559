import Mathlib

/-!
# WasiLibc.Lib.Loop

Loops that may go on for ever.

A turn of a loop ends it with a result, or leads to the next state.  `run`
makes a limited number of turns; `Ends` says that the loop ends at all, and
with what.
-/

namespace WasiLibc.Loop

variable {σ ρ : Type} {turn : σ → ρ ⊕ σ} {s s' : σ} {r r' : ρ}

/-- At most `n` turns. -/
def run (turn : σ → ρ ⊕ σ) : Nat → σ → Option ρ
  | 0, _ => none
  | n + 1, s =>
    match turn s with
    | .inl r => some r
    | .inr s => run turn n s

/-- The loop ends, with the result `r`. -/
inductive Ends (turn : σ → ρ ⊕ σ) : σ → ρ → Prop
  | stop {s : σ} {r : ρ} (h : turn s = .inl r) : Ends turn s r
  | next {s s' : σ} {r : ρ} (h : turn s = .inr s') (hrest : Ends turn s' r) : Ends turn s r

theorem run_stop (h : turn s = .inl r) (n : Nat) : run turn (n + 1) s = some r := by
  rw [run, h]

theorem run_next (h : turn s = .inr s') (n : Nat) : run turn (n + 1) s = run turn n s' := by
  rw [run, h]

/-- More turns do not change the result. -/
theorem run_mono {n m : Nat} (hle : n ≤ m) (h : run turn n s = some r) : run turn m s = some r := by
  induction n generalizing s m with
  | zero => cases h
  | succ n ih =>
    obtain ⟨m, rfl⟩ : ∃ k, m = k + 1 := ⟨m - 1, by omega⟩
    cases hturn : turn s with
    | inl r' =>
      rw [run_stop hturn] at h ⊢
      exact h
    | inr s' =>
      rw [run_next hturn] at h ⊢
      exact ih (by omega) h

/-- A loop ends exactly when some number of turns is enough. -/
theorem ends_iff_run : Ends turn s r ↔ ∃ n, run turn n s = some r := by
  constructor
  · intro h
    induction h with
    | stop h => exact ⟨1, run_stop h 0⟩
    | next h _ ih =>
      obtain ⟨n, hn⟩ := ih
      exact ⟨n + 1, (run_next h n).trans hn⟩
  · rintro ⟨n, hn⟩
    induction n generalizing s with
    | zero => cases hn
    | succ n ih =>
      cases hturn : turn s with
      | inl r' =>
        rw [run_stop hturn] at hn
        cases hn
        exact .stop hturn
      | inr s' =>
        rw [run_next hturn] at hn
        exact .next hturn (ih hn)

theorem Ends.unique (h : Ends turn s r) (h' : Ends turn s r') : r = r' := by
  induction h with
  | stop h =>
    cases h' with
    | stop h' => exact Sum.inl.inj (h.symm.trans h')
    | next h' _ => cases h.symm.trans h'
  | next h _ ih =>
    cases h' with
    | stop h' => cases h.symm.trans h'
    | next h' hrest =>
      cases h.symm.trans h'
      exact ih hrest

/-- A loop does not end that keeps a property with which it goes on. -/
theorem not_ends {I : σ → Prop} (hI : ∀ s, I s → ∃ s', turn s = .inr s' ∧ I s') (h : I s) :
    ¬ Ends turn s r := by
  intro hends
  induction hends with
  | stop hstop =>
    obtain ⟨s', hnext, -⟩ := hI _ h
    cases hstop.symm.trans hnext
  | next hturn _ ih =>
    obtain ⟨s', hnext, h'⟩ := hI _ h
    cases hturn.symm.trans hnext
    exact ih h'

end WasiLibc.Loop

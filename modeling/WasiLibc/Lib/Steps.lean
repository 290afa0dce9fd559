import Mathlib

/-!
# WasiLibc.Lib.Steps

Runs of a system given by a partial step function
`step : σ → ι → Option σ`: a label `ι` says which party moves and how the
environment answers, and `none` says that the label is not possible.

`Reaches step ok s₀ s` collects the states of all runs whose labels meet a
condition `ok` in the state they are taken in; `ok := fun _ _ => True` gives
plain reachability.  The one induction of the development over runs is
`Reaches.invariant`; every safety result elsewhere is a one-step lemma
handed to it.
-/

namespace WasiLibc.Steps

variable {σ ι : Type*} {step : σ → ι → Option σ} {ok : σ → ι → Prop}

/-- One step whose label meets `ok` in the state it is taken in. -/
def Next (step : σ → ι → Option σ) (ok : σ → ι → Prop) (s s' : σ) : Prop :=
  ∃ l, ok s l ∧ step s l = some s'

/-- `Reaches step ok s₀ s`: some run from `s₀` ends in `s`, and each of its
labels meets `ok`. -/
def Reaches (step : σ → ι → Option σ) (ok : σ → ι → Prop) : σ → σ → Prop :=
  Relation.ReflTransGen (Next step ok)

theorem Reaches.refl {s : σ} : Reaches step ok s s := Relation.ReflTransGen.refl

theorem Reaches.snoc {s₀ s s' : σ} {l : ι} (h : Reaches step ok s₀ s) (hok : ok s l)
    (hstep : step s l = some s') : Reaches step ok s₀ s' :=
  Relation.ReflTransGen.tail h ⟨l, hok, hstep⟩

/-- **The induction rule.**  A predicate that every admissible step keeps
holds in every state a run reaches. -/
theorem Reaches.invariant {I : σ → Prop} {s₀ s : σ} (h : Reaches step ok s₀ s) (h0 : I s₀)
    (hstep : ∀ s l s', I s → ok s l → step s l = some s' → I s') : I s := by
  induction h with
  | refl => exact h0
  | tail _ hn ih =>
    obtain ⟨l, hok, hl⟩ := hn
    exact hstep _ l _ ih hok hl

/-- A run given as a list of labels reaches its final state, if a test that
implies `ok` admits each label. -/
theorem reaches_of_foldlM_test {p : σ → ι → Bool} {ls : List ι} {s₀ s : σ}
    (htest : ∀ s l, p s l = true → ok s l)
    (h : ls.foldlM (fun s l => if p s l then step s l else none) s₀ = some s) :
    Reaches step ok s₀ s := by
  induction ls generalizing s₀ with
  | nil =>
    have hs : s₀ = s := by simpa using h
    subst hs
    exact Reaches.refl
  | cons l ls ih =>
    rw [List.foldlM_cons] at h
    obtain ⟨s₁, h₁, h₂⟩ := Option.bind_eq_some_iff.mp h
    split at h₁
    case isTrue hl => exact Relation.ReflTransGen.head ⟨l, htest s₀ l hl, h₁⟩ (ih h₂)
    case isFalse => cases h₁

/-- A run given as a list of labels reaches its final state. -/
theorem reaches_of_foldlM {ls : List ι} {s₀ s : σ} (h : ls.foldlM step s₀ = some s) :
    Reaches step (fun _ _ => True) s₀ s :=
  reaches_of_foldlM_test (p := fun _ _ => true) (fun _ _ _ => trivial) h

end WasiLibc.Steps

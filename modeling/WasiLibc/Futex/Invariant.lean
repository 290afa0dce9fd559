import WasiLibc.Lib.Count
import WasiLibc.Futex.Spec

/-!
# WasiLibc.Futex.Invariant

What holds of the state at every switch, in three parts that the programs
touch at different times.

* `Linked s q moving` — every waitlist is a well-formed list of the threads
  that are queued in it; `moving` are threads on their way out, in no
  waitlist.
* `Counted s hold leak` — the map finds the waitlist of every waiting thread,
  every waitlist in the map counts its users, and every other one has been
  freed once; `hold` is the reference of the running thread, and `leak id`
  counts references that nobody gives back.
* `Staged s` — the node and the future of a waiting thread fit the place at
  which it waits.
-/

namespace WasiLibc.Futex

open Wp

variable {T : Threads}

/-- The thread is inside a wait with the waitlist `id`. -/
def Phase.Uses (id : Nat) : Phase → Prop
  | .waiting _ _ waiters _ => waiters = id
  | _ => False

instance (id : Nat) : DecidablePred (Phase.Uses id) := fun p =>
  match p with
  | .running => inferInstanceAs (Decidable False)
  | .waiting _ _ waiters _ => inferInstanceAs (Decidable (waiters = id))
  | .yielded _ _ => inferInstanceAs (Decidable False)

/-- The future that a thread waits for. -/
def Phase.future : Phase → Option Nat
  | .waiting _ _ _ (.timed _ f) => some f
  | .waiting _ _ _ (.cancelling f) => some f
  | _ => none

/-- The number of threads inside a wait with the waitlist `id`. -/
def State.users (s : State T) (id : Nat) : Nat := Count.count (Phase.Uses id) s.thread

/-- What the running thread has to do with a waitlist: nothing, it has found
it, or it has a reference to it. -/
inductive Hold where
  | none
  | found (id : Nat)
  | taken (id : Nat)
  deriving DecidableEq

def Hold.count (id : Nat) : Hold → Nat
  | .taken id' => if id' = id then 1 else 0
  | _ => 0

structure Linked (s : State T) (q : Nat → List (Tid T)) (moving : List (Tid T)) : Prop where
  lists : ∀ id wl, s.waitlist id = some wl → DList.IsList s.link wl.list (q id)
  mem : ∀ t id, t ∈ q id ↔ (s.thread t).Uses id ∧ (s.node t).woken = false ∧ t ∉ moving

structure Counted (s : State T) (hold : Hold) (leak : Nat → Nat) : Prop where
  entry : ∀ t call addr id stage, s.thread t = .waiting call addr id stage →
    s.lookup addr = some id
  count : ∀ addr id, s.lookup addr = some id → ∃ wl, s.waitlist id = some wl ∧
    wl.refcnt = s.users id + hold.count id + leak id ∧ (0 < wl.refcnt ∨ hold = .found id)
  key : ∀ a b id, s.lookup a = some id → s.lookup b = some id → a = b
  fresh : ∀ id, s.nextWaitlist ≤ id → s.waitlist id = none ∧ s.freed.count id = 0 ∧ leak id = 0
  owned : ∀ id, id < s.nextWaitlist → (∃ addr, s.lookup addr = some id ∧ s.freed.count id = 0) ∨
    (s.freed.count id = 1 ∧ s.waitlist id = none)

/-- The node and the future of a thread fit the stage it has come to. -/
def Fits (s : State T) (t : Tid T) : Stage → Prop
  | .suspended => s.node t = ⟨.tid, t, false⟩
  | .resumed => (s.node t).woken = true
  | .timed _ f => f < s.nextFuture ∧ ∃ woken, s.node t = ⟨.future, f, woken⟩ ∧
      s.future f = ⟨true, woken, woken, true, true⟩
  | .cancelling f => f < s.nextFuture ∧ (s.node t).woken = true ∧
      s.future f = ⟨false, true, true, true, true⟩

structure Staged (s : State T) : Prop where
  fits : ∀ t call addr id stage, s.thread t = .waiting call addr id stage → Fits s t stage
  futures : ∀ t u f, (s.thread t).future = some f → (s.thread u).future = some f → t = u

/-- The invariant at a switch. -/
structure Good (s : State T) (q : Nat → List (Tid T)) (leak : Nat → Nat) : Prop where
  linked : Linked s q []
  counted : Counted s .none leak
  staged : Staged s

variable {s s' : State T} {q : Nat → List (Tid T)} {moving : List (Tid T)} {hold : Hold}
  {leak : Nat → Nat} {t : Tid T} {id : Nat}

theorem good_initial : Good (State.initial : State T) (fun _ => []) (fun _ => 0) := by
  refine ⟨⟨?_, ?_⟩, ⟨?_, ?_, ?_, ?_, ?_⟩, ⟨?_, ?_⟩⟩
  · intro id wl h; cases h
  · intro t id; simp [State.initial, Phase.Uses]
  · intro t call addr id stage h; cases h
  · intro addr id h; cases h
  · intro a b id h; cases h
  · intro id _; exact ⟨rfl, rfl, rfl⟩
  · intro id h; exact absurd h (Nat.not_lt_zero _)
  · intro t call addr id stage h; cases h
  · intro t u f h; cases h

/-! ## Parts that a change leaves alone -/

theorem Linked.congr (h : Linked s q moving) (hlink : s'.link = s.link)
    (hthread : ∀ t id, (s'.thread t).Uses id ↔ (s.thread t).Uses id)
    (hnode : ∀ t, (s'.node t).woken = (s.node t).woken)
    (hlist : ∀ id wl', s'.waitlist id = some wl' →
      ∃ wl, s.waitlist id = some wl ∧ wl.list = wl'.list) : Linked s' q moving := by
  refine ⟨fun id wl' hwl' => ?_, fun t id => ?_⟩
  · obtain ⟨wl, hwl, hl⟩ := hlist id wl' hwl'
    rw [hlink, ← hl]
    exact h.lists id wl hwl
  · rw [hthread, hnode]
    exact h.mem t id

theorem Counted.congr (h : Counted s hold leak)
    (hthread : ∀ t call addr id stage, s'.thread t = .waiting call addr id stage →
      ∃ stage', s.thread t = .waiting call addr id stage')
    (husers : ∀ id, s'.users id = s.users id) (hlookup : s'.lookup = s.lookup)
    (hlist : ∀ id, (s'.waitlist id).map Waitlist.refcnt = (s.waitlist id).map Waitlist.refcnt)
    (hfresh : s'.nextWaitlist = s.nextWaitlist) (hfreed : s'.freed = s.freed) :
    Counted s' hold leak := by
  have hnone : ∀ id, s.waitlist id = none → s'.waitlist id = none := by
    intro id hid
    have := hlist id
    rw [hid] at this
    simpa using this
  refine ⟨?_, ?_, ?_, ?_, ?_⟩
  · intro t call addr id stage ht
    obtain ⟨stage', ht'⟩ := hthread t call addr id stage ht
    rw [hlookup]
    exact h.entry t call addr id stage' ht'
  · intro addr id ha
    rw [hlookup] at ha
    obtain ⟨wl, hwl, hcount, hpos⟩ := h.count addr id ha
    have := hlist id
    rw [hwl, Option.map_some, Option.map_eq_some_iff] at this
    obtain ⟨wl', hwl', href⟩ := this
    exact ⟨wl', hwl', by rw [href, hcount, husers], href ▸ hpos⟩
  · intro a b id ha hb
    rw [hlookup] at ha hb
    exact h.key a b id ha hb
  · intro id hid
    rw [hfresh] at hid
    obtain ⟨hwl, hf, hleak⟩ := h.fresh id hid
    exact ⟨hnone id hwl, hfreed ▸ hf, hleak⟩
  · intro id hid
    rw [hfresh] at hid
    rw [hlookup, hfreed]
    exact (h.owned id hid).imp_right fun ⟨hf, hwl⟩ => ⟨hf, hnone id hwl⟩

theorem Staged.congr (h : Staged s) (hthread : s'.thread = s.thread) (hnode : s'.node = s.node)
    (hfuture : s'.future = s.future) (hnext : s'.nextFuture = s.nextFuture) : Staged s' := by
  refine ⟨?_, ?_⟩
  · intro t call addr id stage ht
    rw [hthread] at ht
    have hfit := h.fits t call addr id stage ht
    cases stage <;> simpa only [Fits, hnode, hfuture, hnext] using hfit
  · intro t u f ht hu
    rw [hthread] at ht hu
    exact h.futures t u f ht hu

/-- A thread that is not waiting is in no waitlist. -/
theorem Linked.notMem (h : Linked s q moving) (ht : ∀ id, ¬ (s.thread t).Uses id) (id : Nat) :
    t ∉ q id :=
  fun hmem => ht id ((h.mem t id).mp hmem).1

theorem uses_unique {p : Phase} {id id' : Nat} (h : p.Uses id) (h' : p.Uses id') : id = id' := by
  cases p with
  | waiting call addr waiters stage => exact Eq.trans (Eq.symm h) h'
  | _ => exact h.elim

end WasiLibc.Futex

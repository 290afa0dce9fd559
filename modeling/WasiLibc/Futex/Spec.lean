import WasiLibc.Futex.Calls

/-!
# WasiLibc.Futex.Spec

What futexes are for, without waitlists, nodes, futures and counts.

A thread is queued on an address until a wake releases it or its deadline
passes; a wake releases as many of the threads queued on its address as it
was asked to.  `Spec.Step` is this machine, and `Spec.Inv` what its history
says of wakes and waits in every state it reaches: nothing is lost and
nothing is woken twice.
-/

namespace WasiLibc.Futex

open Function

variable {T : Threads}

/-- Where a thread stands. -/
inductive Standing where
  | running
  | queued (call : Nat) (addr : Addr)
  | released (call : Nat) (addr : Addr)
  | yielded (call : Nat) (woken : Nat)
  deriving DecidableEq, Repr

namespace Standing

/-- The call of a thread that is queued on `addr`. -/
def queuedCall (addr : Addr) : Standing → Option Nat
  | .queued call a => if a = addr then some call else none
  | _ => none

/-- The wait that a thread is in. -/
def wait : Standing → Option Nat
  | .queued call _ => some call
  | .released call _ => some call
  | _ => none

/-- A queued thread is released. -/
def release : Standing → Standing
  | .queued call addr => .released call addr
  | standing => standing

end Standing

/-- A state of the machine. -/
structure Spec (T : Threads) where
  standing : Tid T → Standing
  history : History

/-- How many of `queued` waits a wake asks for; a negative count asks for all
of them. -/
def wanted (count : Int) (queued : Nat) : Nat :=
  if count < 0 then queued else min count.toNat queued

/-- Wake `k` dequeues the waits `calls`, one after the other. -/
def History.dequeueAll (h : History) (k : Nat) (calls : List Nat) : History :=
  calls.foldl (fun h call => h.dequeue k call) h

namespace Spec

/-- The waits queued on an address. -/
def queuedOn (a : Spec T) (addr : Addr) : List Nat :=
  (List.finRange T.count).filterMap fun t => (a.standing t).queuedCall addr

/-- The waits of some threads. -/
def calls (a : Spec T) (ts : List (Tid T)) : List Nat := ts.filterMap fun t => (a.standing t).wait

/-- A wait that returns at once, without having been queued. -/
def reject (a : Spec T) (rc : Rc) : Spec T :=
  { a with history := a.history.waitCalled.waitReturns a.history.calls rc }

/-- A thread is queued. -/
def block (a : Spec T) (t : Tid T) (addr : Addr) : Spec T where
  standing := update a.standing t (.queued a.history.calls addr)
  history := a.history.waitCalled

/-- The wait of a thread returns. -/
def leave (a : Spec T) (t : Tid T) (call : Nat) (rc : Rc) : Spec T where
  standing := update a.standing t .running
  history := a.history.waitReturns call rc

/-- A wake releases `ts`. -/
def release (a : Spec T) (addr : Addr) (count : Int) (flags : BitVec 32) (ts : List (Tid T)) :
    Spec T where
  standing t := if t ∈ ts then (a.standing t).release else a.standing t
  history := (a.history.wakeCalled addr count flags (a.queuedOn addr)).dequeueAll
    a.history.calls (a.calls ts)

/-- The wake of a thread returns. -/
def wakeReturn (a : Spec T) (t : Tid T) (k : Nat) (rc : Except Errno Nat) : Spec T where
  standing := update a.standing t .running
  history := a.history.wakeReturns k rc

/-- The wake of a thread yields to the last thread it has released. -/
def wakeYield (a : Spec T) (t : Tid T) (k woken : Nat) : Spec T :=
  { a with standing := update a.standing t (.yielded k woken) }

/-- A wake may release `ts`: different threads queued on the address, as many
as it was asked for. -/
structure MayRelease (a : Spec T) (addr : Addr) (count : Int) (ts : List (Tid T)) : Prop where
  nodup : ts.Nodup
  queued : ∀ t ∈ ts, ∃ call, a.standing t = .queued call addr
  length : ts.length = wanted count (a.queuedOn addr).length

/-- One step of the machine. -/
inductive Step (a : Spec T) : Spec T → Prop
  | stutter : Step a a
  | reject (rc : Rc) (hrc : rc ≠ .zero) : Step a (a.reject rc)
  | block (t : Tid T) (addr : Addr) (ht : a.standing t = .running) : Step a (a.block t addr)
  | expire (t : Tid T) (call : Nat) (addr : Addr) (ht : a.standing t = .queued call addr) :
      Step a (a.leave t call (.neg .ETIMEDOUT))
  | leave (t : Tid T) (call : Nat) (addr : Addr) (ht : a.standing t = .released call addr) :
      Step a (a.leave t call .zero)
  | wakeInvalid (t : Tid T) (addr : Addr) (count : Int) (flags : BitVec 32)
      (ht : a.standing t = .running) (hflags : ¬ (flags = 0 ∨ flags = FUTEX_YIELD)) :
      Step a ((a.release addr count flags []).wakeReturn t a.history.calls (.error .EINVAL))
  | wake (t : Tid T) (addr : Addr) (count : Int) (flags : BitVec 32) (ts : List (Tid T))
      (ht : a.standing t = .running) (hflags : flags = 0 ∨ flags = FUTEX_YIELD)
      (hts : a.MayRelease addr count ts) :
      Step a ((a.release addr count flags ts).wakeReturn t a.history.calls (.ok ts.length))
  | wakeYield (t : Tid T) (addr : Addr) (count : Int) (flags : BitVec 32) (ts : List (Tid T))
      (ht : a.standing t = .running) (hflags : flags = 0 ∨ flags = FUTEX_YIELD)
      (hts : a.MayRelease addr count ts) :
      Step a ((a.release addr count flags ts).wakeYield t a.history.calls ts.length)
  | wakeReturn (t : Tid T) (k woken : Nat) (ht : a.standing t = .yielded k woken) :
      Step a (a.wakeReturn t k (.ok woken))

end Spec

/-! ## What the history says -/

/-- Were the flags of the wake valid? -/
def WakeRecord.Valid (r : WakeRecord) : Prop := r.flags = 0 ∨ r.flags = FUTEX_YIELD

instance (r : WakeRecord) : Decidable r.Valid := inferInstanceAs (Decidable (_ ∨ _))

/-- What the wake has to return. -/
def WakeRecord.answer (r : WakeRecord) : Except Errno Nat :=
  if r.Valid then .ok r.dequeued.length else .error .EINVAL

/-- The wake dequeued as many of the queued waits as it was asked to, each of
them once. -/
structure WakeRecord.Exact (r : WakeRecord) : Prop where
  queued_nodup : r.queued.Nodup
  nodup : r.dequeued.Nodup
  subset : r.dequeued ⊆ r.queued
  length : r.Valid → r.dequeued.length = wanted r.count r.queued.length
  invalid : ¬ r.Valid → r.dequeued = []

/-- The invariant of the machine; `current` is a wake that has not returned
yet and whose thread has not yielded. -/
structure Spec.Inv (a : Spec T) (current : Option Nat) : Prop where
  queued : ∀ t c addr, a.standing t = .queued c addr →
    c < a.history.calls ∧ a.history.wait c = ⟨[], none⟩
  released : ∀ t c addr, a.standing t = .released c addr →
    c < a.history.calls ∧ ∃ k, a.history.wait c = ⟨[k], none⟩
  distinct : ∀ t u c, (a.standing t).wait = some c → (a.standing u).wait = some c → t = u
  zero : ∀ c, (a.history.wait c).result = some .zero → ∃ k, (a.history.wait c).dequeuers = [k]
  nonzero : ∀ c rc, (a.history.wait c).result = some rc → rc ≠ .zero →
    (a.history.wait c).dequeuers = []
  pending : ∀ c, (a.history.wait c).result = none → (a.history.wait c).dequeuers ≠ [] →
    ∃ t addr, a.standing t = .released c addr
  both : ∀ k c, k ∈ (a.history.wait c).dequeuers ↔
    ∃ r, a.history.wake k = some r ∧ c ∈ r.dequeued
  exact : ∀ k r, a.history.wake k = some r → r.Exact
  result : ∀ k r rc, a.history.wake k = some r → r.result = some rc → rc = r.answer
  yielded : ∀ t k woken, a.standing t = .yielded k woken →
    ∃ r, a.history.wake k = some r ∧ r.answer = .ok woken
  returns : ∀ k r, a.history.wake k = some r → r.result = none → current ≠ some k →
    ∃ t woken, a.standing t = .yielded k woken
  fresh : ∀ c, a.history.calls ≤ c →
    a.history.wait c = ⟨[], none⟩ ∧ a.history.wake c = none

/-! ## The invariant holds -/

namespace Spec

variable {a a' : Spec T} {current : Option Nat}

theorem inv_initial : Inv (⟨fun _ => .running, History.empty⟩ : Spec T) none := by
  constructor <;> simp [History.empty, Standing.wait]

variable {t : Tid T} {c : Nat} {rc : Rc} {addr : Addr} {ts : List (Tid T)} {count : Int}
  {flags : BitVec 32} {k : Nat} {r : WakeRecord}

theorem Inv.lt_of_wait (h : a.Inv current)
    (hc : (a.standing t).wait = some c) : c < a.history.calls := by
  cases hs : a.standing t with
  | queued c' addr =>
    rw [hs] at hc
    cases hc
    exact (h.queued t c addr hs).1
  | released c' addr =>
    rw [hs] at hc
    cases hc
    exact (h.released t c addr hs).1
  | _ => rw [hs] at hc; cases hc

/-- The record of a wait after it has returned. -/
theorem waitReturns_wait (h : History) (call c : Nat) (rc : Rc) :
    (h.waitReturns call rc).wait c =
      if c = call then { h.wait call with result := some rc } else h.wait c := by
  by_cases hc : c = call
  · simp [History.waitReturns, hc]
  · simp [History.waitReturns, hc]

theorem waitReturns_dequeuers (h : History) (call c : Nat) (rc : Rc) :
    ((h.waitReturns call rc).wait c).dequeuers = (h.wait c).dequeuers := by
  rw [waitReturns_wait]
  split
  case isTrue hc => rw [hc]
  case isFalse => rfl

/-- A wait returns, and the thread that was in it goes on: 0 if it was
dequeued, and only then. -/
theorem Inv.waitReturns (h : a.Inv current) {st : Tid T → Standing} {call : Nat}
    (hst : ∀ u, st u = a.standing u ∨ st u = .running ∧ (a.standing u).wait = some call)
    (hout : ∀ t, (st t).wait ≠ some call) (hlt : call < a.history.calls)
    (hzero : rc = .zero → ∃ k, (a.history.wait call).dequeuers = [k])
    (hne : rc ≠ .zero → (a.history.wait call).dequeuers = []) :
    Inv ⟨st, a.history.waitReturns call rc⟩ current := by
  have hsame : ∀ t, st t ≠ .running → st t = a.standing t := by
    intro t ht
    exact (hst t).resolve_right fun hr => ht hr.1
  have hother : ∀ t, (a.standing t).wait ≠ some call → st t = a.standing t := by
    intro t ht
    exact (hst t).resolve_right fun hr => ht hr.2
  have hold : ∀ t c, (st t).wait = some c →
      (a.history.waitReturns call rc).wait c = a.history.wait c := by
    intro t c hc
    rw [waitReturns_wait, if_neg]
    rintro rfl
    exact hout t hc
  refine ⟨?_, ?_, ?_, ?_, ?_, ?_, ?_, h.exact, h.result, ?_, ?_, ?_⟩
  · intro t c addr ht
    have ht : st t = .queued c addr := ht
    obtain ⟨hc, hw⟩ := h.queued t c addr ((hsame t (by simp [ht])).symm.trans ht)
    exact ⟨hc, (hold t c (by rw [ht]; rfl)).trans hw⟩
  · intro t c addr ht
    have ht : st t = .released c addr := ht
    obtain ⟨hc, k, hw⟩ := h.released t c addr ((hsame t (by simp [ht])).symm.trans ht)
    exact ⟨hc, k, (hold t c (by rw [ht]; rfl)).trans hw⟩
  · have hwait : ∀ t c, (st t).wait = some c → (a.standing t).wait = some c := by
      intro t c hc
      rw [← hsame t (by rintro hr; rw [hr] at hc; cases hc)]
      exact hc
    exact fun t u c ht hu => h.distinct t u c (hwait t c ht) (hwait u c hu)
  · intro c hc
    simp only [waitReturns_dequeuers]
    simp only [waitReturns_wait] at hc
    split at hc
    case isTrue heq => rw [heq]; exact hzero (Option.some.inj hc)
    case isFalse => exact h.zero c hc
  · intro c rc' hc hrc
    simp only [waitReturns_dequeuers]
    simp only [waitReturns_wait] at hc
    split at hc
    case isTrue heq => rw [heq]; exact hne (Option.some.inj hc ▸ hrc)
    case isFalse => exact h.nonzero c rc' hc hrc
  · intro c hc hd
    simp only [waitReturns_dequeuers] at hd
    simp only [waitReturns_wait] at hc
    split at hc
    case isTrue => cases hc
    case isFalse hcall =>
      obtain ⟨t, addr, ht⟩ := h.pending c hc hd
      refine ⟨t, addr, (hother t ?_).trans ht⟩
      rw [ht]
      exact fun hc' => hcall (Option.some.inj hc')
  · intro k c
    simp only [waitReturns_dequeuers]
    exact h.both k c
  · intro t k woken ht
    have ht : st t = .yielded k woken := ht
    exact h.yielded t k woken ((hsame t (by simp [ht])).symm.trans ht)
  · intro k r hk hr hcur
    obtain ⟨t, woken, ht⟩ := h.returns k r hk hr hcur
    exact ⟨t, woken, (hother t (by rw [ht]; simp [Standing.wait])).trans ht⟩
  · intro c hc
    have hc : a.history.calls ≤ c := hc
    simp only [waitReturns_wait]
    rw [if_neg (by omega)]
    exact h.fresh c hc

/-- A call is numbered. -/
theorem Inv.waitCalled (h : a.Inv current) :
    Inv { a with history := a.history.waitCalled } current := by
  refine ⟨?_, ?_, h.distinct, h.zero, h.nonzero, h.pending, h.both, h.exact, h.result, h.yielded,
    h.returns, ?_⟩
  · intro t c addr ht
    obtain ⟨hc, hw⟩ := h.queued t c addr ht
    exact ⟨Nat.lt_succ_of_lt hc, hw⟩
  · intro t c addr ht
    obtain ⟨hc, hw⟩ := h.released t c addr ht
    exact ⟨Nat.lt_succ_of_lt hc, hw⟩
  · intro c hc
    exact h.fresh c (Nat.le_of_succ_le hc)

theorem Inv.reject (h : a.Inv none) (hrc : rc ≠ .zero) : (a.reject rc).Inv none := by
  refine h.waitCalled.waitReturns (fun _ => .inl rfl) ?_ (Nat.lt_succ_self _)
    (fun h0 => absurd h0 hrc) fun _ => ?_
  · intro t ht
    exact absurd (h.lt_of_wait ht) (Nat.lt_irrefl _)
  · exact congrArg WaitRecord.dequeuers (h.fresh _ (Nat.le_refl _)).1

theorem Inv.leave (h : a.Inv none) {call : Nat}
    (ht : (a.standing t).wait = some call)
    (hzero : rc = .zero → ∃ k, (a.history.wait call).dequeuers = [k])
    (hne : rc ≠ .zero → (a.history.wait call).dequeuers = []) : (a.leave t call rc).Inv none := by
  refine h.waitReturns ?_ ?_ (h.lt_of_wait ht) hzero hne
  · intro u
    by_cases hu : u = t
    · subst hu
      exact .inr ⟨by simp, ht⟩
    · exact .inl (by simp [hu])
  · intro u hu
    by_cases hut : u = t
    · simp [hut, Standing.wait] at hu
    · rw [update_of_ne hut] at hu
      exact hut (h.distinct u t call hu ht)

theorem Inv.block (h : a.Inv none) (addr : Addr) (ht : a.standing t = .running) :
    (a.block t addr).Inv none := by
  have hfresh := h.fresh a.history.calls (Nat.le_refl _)
  have hsame : ∀ u, u ≠ t → (a.block t addr).standing u = a.standing u := by
    intro u hu
    simp [Spec.block, hu]
  have hself : (a.block t addr).standing t = .queued a.history.calls addr := by simp [Spec.block]
  -- a thread that is not running is another one
  have hother : ∀ u, a.standing u ≠ .running → (a.block t addr).standing u = a.standing u := by
    intro u hu
    exact hsame u fun hut => hu (hut ▸ ht)
  have hlt : ∀ u c, u ≠ t → ((a.block t addr).standing u).wait = some c → c < a.history.calls := by
    intro u c hu hc
    rw [hsame u hu] at hc
    exact h.lt_of_wait hc
  refine ⟨?_, ?_, ?_, h.zero, h.nonzero, ?_, h.both, h.exact, h.result, ?_, ?_, ?_⟩
  · intro u c addr' hu
    by_cases hut : u = t
    · rw [hut, hself] at hu
      cases hu
      exact ⟨Nat.lt_succ_self _, hfresh.1⟩
    · obtain ⟨hc, hw⟩ := h.queued u c addr' ((hsame u hut).symm.trans hu)
      exact ⟨Nat.lt_succ_of_lt hc, hw⟩
  · intro u c addr' hu
    have hut : u ≠ t := by
      rintro rfl
      rw [hself] at hu
      cases hu
    obtain ⟨hc, hw⟩ := h.released u c addr' ((hsame u hut).symm.trans hu)
    exact ⟨Nat.lt_succ_of_lt hc, hw⟩
  · intro u v c hu hv
    by_cases hut : u = t <;> by_cases hvt : v = t
    · exact hut.trans hvt.symm
    · have hc := hlt v c hvt hv
      rw [hut, hself] at hu
      cases hu
      exact absurd hc (Nat.lt_irrefl _)
    · have hc := hlt u c hut hu
      rw [hvt, hself] at hv
      cases hv
      exact absurd hc (Nat.lt_irrefl _)
    · rw [hsame u hut] at hu
      rw [hsame v hvt] at hv
      exact h.distinct u v c hu hv
  · intro c hc hd
    obtain ⟨u, addr', hu⟩ := h.pending c hc hd
    exact ⟨u, addr', (hother u (by simp [hu])).trans hu⟩
  · intro u k woken hu
    have hut : u ≠ t := by
      rintro rfl
      rw [hself] at hu
      cases hu
    exact h.yielded u k woken ((hsame u hut).symm.trans hu)
  · intro k r hk hr hcur
    obtain ⟨u, woken, hu⟩ := h.returns k r hk hr hcur
    exact ⟨u, woken, (hother u (by simp [hu])).trans hu⟩
  · intro c hc
    exact h.fresh c (Nat.le_of_succ_le hc)

/-! ### Wakes -/

theorem dequeueAll_calls (h : History) (k : Nat) (cs : List Nat) :
    (h.dequeueAll k cs).calls = h.calls := by
  induction cs generalizing h with
  | nil => rfl
  | cons c cs ih => exact ih (h.dequeue k c)

theorem dequeueAll_wake (h : History) (k : Nat) (cs : List Nat) :
    (h.dequeueAll k cs).wake = update h.wake k
      ((h.wake k).map fun r => { r with dequeued := r.dequeued ++ cs }) := by
  induction cs generalizing h with
  | nil => simp [History.dequeueAll]
  | cons c cs ih =>
    show ((h.dequeue k c).dequeueAll k cs).wake = _
    rw [ih]
    simp [History.dequeue, comp_def]

theorem dequeueAll_wait (h : History) (k : Nat) {cs : List Nat} (hcs : cs.Nodup) (c : Nat) :
    (h.dequeueAll k cs).wait c =
      if c ∈ cs then { h.wait c with dequeuers := (h.wait c).dequeuers ++ [k] } else h.wait c := by
  induction cs generalizing h with
  | nil => rfl
  | cons c' cs ih =>
    obtain ⟨hc', hcs⟩ := List.nodup_cons.mp hcs
    show ((h.dequeue k c').dequeueAll k cs).wait c = _
    rw [ih _ hcs]
    by_cases hcc : c = c'
    · subst hcc
      simp [hc', History.dequeue]
    · simp [hcc, History.dequeue]

/-- The waits of threads queued on an address. -/
theorem mem_calls
    (hts : ∀ t ∈ ts, ∃ call, a.standing t = .queued call addr) :
    c ∈ a.calls ts ↔ ∃ t ∈ ts, a.standing t = .queued c addr := by
  simp only [calls, List.mem_filterMap]
  constructor
  · rintro ⟨t, ht, hc⟩
    obtain ⟨call, hcall⟩ := hts t ht
    rw [hcall] at hc
    cases hc
    exact ⟨t, ht, hcall⟩
  · rintro ⟨t, ht, hc⟩
    exact ⟨t, ht, by rw [hc]; rfl⟩

theorem mem_queuedOn :
    c ∈ a.queuedOn addr ↔ ∃ t, a.standing t = .queued c addr := by
  simp only [queuedOn, List.mem_filterMap, List.mem_finRange, true_and]
  refine exists_congr fun t => ?_
  cases a.standing t with
  | queued call addr' => simp [Standing.queuedCall, and_comm]
  | _ => simp [Standing.queuedCall]

theorem Inv.nodup_calls (h : a.Inv current) (hts : ts.Nodup) :
    (a.calls ts).Nodup := by
  refine hts.filterMap ?_
  intro t u c ht hu
  exact h.distinct t u c ht hu

theorem Inv.nodup_queuedOn (h : a.Inv current) (addr : Addr) : (a.queuedOn addr).Nodup := by
  refine (List.nodup_finRange _).filterMap ?_
  have hwait : ∀ t c, (a.standing t).queuedCall addr = some c → (a.standing t).wait = some c := by
    intro t c hc
    cases hs : a.standing t with
    | queued call addr' =>
      simp only [hs, Standing.queuedCall, Option.ite_none_right_eq_some] at hc
      exact hc.2
    | _ => simp [hs, Standing.queuedCall] at hc
  intro t u c ht hu
  exact h.distinct t u c (hwait t c ht) (hwait u c hu)

theorem length_calls
    (hts : ∀ t ∈ ts, ∃ call, a.standing t = .queued call addr) :
    (a.calls ts).length = ts.length := by
  induction ts with
  | nil => rfl
  | cons t ts ih =>
    obtain ⟨call, hcall⟩ := hts t List.mem_cons_self
    have hcalls : a.calls (t :: ts) = call :: a.calls ts := by simp [calls, hcall, Standing.wait]
    rw [hcalls, List.length_cons, ih fun u hu => hts u (List.mem_cons_of_mem _ hu),
      List.length_cons]

/-- What a wake that releases `ts` leaves in the history. -/
structure Released (a : Spec T) (addr : Addr) (count : Int) (flags : BitVec 32)
    (ts : List (Tid T)) : Prop where
  nodup : ts.Nodup
  queued : ∀ t ∈ ts, ∃ call, a.standing t = .queued call addr
  length : flags = 0 ∨ flags = FUTEX_YIELD → ts.length = wanted count (a.queuedOn addr).length
  invalid : ¬ (flags = 0 ∨ flags = FUTEX_YIELD) → ts = []

section

variable {addr : Addr} {count : Int} {flags : BitVec 32} {ts : List (Tid T)}

/-- The record of the wake. -/
theorem release_wake (k : Nat) :
    (a.release addr count flags ts).history.wake k =
      if k = a.history.calls then some ⟨addr, count, flags, a.queuedOn addr, a.calls ts, none⟩
      else a.history.wake k := by
  simp only [release, dequeueAll_wake, History.wakeCalled]
  by_cases hk : k = a.history.calls
  · simp [hk]
  · simp [hk]

/-- The waits of the threads released. -/
theorem Inv.release_wait (h : a.Inv current) (hts : a.Released addr count flags ts) (c : Nat) :
    (a.release addr count flags ts).history.wait c =
      if c ∈ a.calls ts then ⟨[a.history.calls], none⟩ else a.history.wait c := by
  simp only [release, dequeueAll_wait _ _ (h.nodup_calls hts.nodup), History.wakeCalled]
  split
  case isTrue hc =>
    obtain ⟨t, -, ht⟩ := (mem_calls hts.queued).mp hc
    simp [(h.queued t c addr ht).2]
  case isFalse => rfl

theorem release_calls : (a.release addr count flags ts).history.calls = a.history.calls + 1 := by
  simp [release, dequeueAll_calls, History.wakeCalled]

variable {t : Tid T}

theorem standing_release (ht : t ∈ ts) {c : Nat}
    (hc : a.standing t = .queued c addr) :
    (a.release addr count flags ts).standing t = .released c addr := by
  simp [release, ht, hc, Standing.release]

theorem standing_release_of_notMem (ht : t ∉ ts) :
    (a.release addr count flags ts).standing t = a.standing t := by
  simp [release, ht]

theorem release_standing_wait (t : Tid T) :
    ((a.release addr count flags ts).standing t).wait = (a.standing t).wait := by
  by_cases ht : t ∈ ts
  · simp only [release, ht, if_true]
    cases a.standing t <;> rfl
  · rw [standing_release_of_notMem ht]

/-- A thread that is not queued is not released. -/
theorem Released.standing_eq (hts : a.Released addr count flags ts)
    (ht : ∀ c, a.standing t ≠ .queued c addr) :
    (a.release addr count flags ts).standing t = a.standing t := by
  refine standing_release_of_notMem fun hmem => ?_
  obtain ⟨c, hc⟩ := hts.queued t hmem
  exact ht c hc

theorem Inv.release (h : a.Inv none) (hts : a.Released addr count flags ts) :
    (a.release addr count flags ts).Inv (some a.history.calls) := by
  have hfresh := h.fresh a.history.calls (Nat.le_refl _)
  have hmem := fun c => mem_calls (c := c) hts.queued
  -- a wait that was not released has the record it had
  have hkeep : ∀ c, c ∉ a.calls ts →
      (a.release addr count flags ts).history.wait c = a.history.wait c := by
    intro c hc
    rw [h.release_wait hts, if_neg hc]
  have hlt : ∀ c ∈ a.calls ts, c < a.history.calls := by
    intro c hc
    obtain ⟨t, -, ht⟩ := (hmem c).mp hc
    exact (h.queued t c addr ht).1
  refine ⟨?_, ?_, ?_, ?_, ?_, ?_, ?_, ?_, ?_, ?_, ?_, ?_⟩
  · intro t c addr' ht
    have htmem : t ∉ ts := by
      intro hin
      obtain ⟨c', hc'⟩ := hts.queued t hin
      rw [standing_release hin hc'] at ht
      cases ht
    rw [standing_release_of_notMem htmem] at ht
    obtain ⟨hc, hw⟩ := h.queued t c addr' ht
    refine ⟨by rw [release_calls]; omega, ?_⟩
    rw [hkeep c, hw]
    intro hin
    obtain ⟨u, hu, huc⟩ := (hmem c).mp hin
    exact htmem (h.distinct t u c (by rw [ht]; rfl) (by rw [huc]; rfl) ▸ hu)
  · intro t c addr' ht
    by_cases hin : t ∈ ts
    · obtain ⟨c', hc'⟩ := hts.queued t hin
      rw [standing_release hin hc'] at ht
      cases ht
      have hc := (hmem c).mpr ⟨t, hin, hc'⟩
      refine ⟨by rw [release_calls]; exact Nat.lt_succ_of_lt (hlt c hc), a.history.calls, ?_⟩
      rw [h.release_wait hts, if_pos hc]
    · rw [standing_release_of_notMem hin] at ht
      obtain ⟨hc, k, hw⟩ := h.released t c addr' ht
      refine ⟨by rw [release_calls]; omega, k, ?_⟩
      rw [hkeep c, hw]
      intro hin'
      obtain ⟨u, hu, huc⟩ := (hmem c).mp hin'
      exact hin (h.distinct t u c (by rw [ht]; rfl) (by rw [huc]; rfl) ▸ hu)
  · intro t u c ht hu
    rw [release_standing_wait] at ht hu
    exact h.distinct t u c ht hu
  · intro c hc
    rw [h.release_wait hts] at hc ⊢
    split at hc
    case isTrue => cases hc
    case isFalse hn => rw [if_neg hn]; exact h.zero c hc
  · intro c rc hc hrc
    rw [h.release_wait hts] at hc ⊢
    split at hc
    case isTrue => cases hc
    case isFalse hn => rw [if_neg hn]; exact h.nonzero c rc hc hrc
  · intro c hc hd
    by_cases hin : c ∈ a.calls ts
    · obtain ⟨t, ht, htc⟩ := (hmem c).mp hin
      exact ⟨t, addr, standing_release ht htc⟩
    · rw [hkeep c hin] at hc hd
      obtain ⟨t, addr', ht⟩ := h.pending c hc hd
      exact ⟨t, addr', (hts.standing_eq fun _ => by simp [ht]).trans ht⟩
  · intro k c
    rw [h.release_wait hts, release_wake]
    by_cases hk : k = a.history.calls
    · subst hk
      have hnot : a.history.calls ∉ (a.history.wait c).dequeuers := by
        rw [h.both, hfresh.2]
        simp
      by_cases hin : c ∈ a.calls ts
      · simp [hin]
      · simp [hin, hnot]
    · rw [if_neg hk, ← h.both k c]
      by_cases hin : c ∈ a.calls ts
      · obtain ⟨t, -, ht⟩ := (hmem c).mp hin
        simp [hin, hk, (h.queued t c addr ht).2]
      · simp [hin]
  · intro k r hk
    rw [release_wake] at hk
    split at hk
    case isFalse => exact h.exact k r hk
    case isTrue =>
      cases hk
      refine ⟨h.nodup_queuedOn addr, h.nodup_calls hts.nodup, ?_, ?_, ?_⟩
      · intro c hc
        obtain ⟨t, -, ht⟩ := (hmem c).mp hc
        exact mem_queuedOn.mpr ⟨t, ht⟩
      · intro hvalid
        rw [length_calls hts.queued]
        exact hts.length hvalid
      · intro hinvalid
        simp [hts.invalid hinvalid, calls]
  · intro k r rc hk hr
    rw [release_wake] at hk
    split at hk
    case isFalse => exact h.result k r rc hk hr
    case isTrue => cases hk; cases hr
  · intro t k woken ht
    have hold : a.standing t = .yielded k woken := by
      by_cases hin : t ∈ ts
      · obtain ⟨c, hc⟩ := hts.queued t hin
        rw [standing_release hin hc] at ht
        cases ht
      · exact (standing_release_of_notMem hin).symm.trans ht
    obtain ⟨r, hk, hr⟩ := h.yielded t k woken hold
    refine ⟨r, ?_, hr⟩
    rw [release_wake, if_neg, hk]
    rintro rfl
    rw [hfresh.2] at hk
    cases hk
  · intro k r hk hr hcur
    rw [release_wake, if_neg (show k ≠ a.history.calls by rintro rfl; exact hcur rfl)] at hk
    obtain ⟨t, woken, ht⟩ := h.returns k r hk hr (by simp)
    exact ⟨t, woken, (hts.standing_eq fun _ => by simp [ht]).trans ht⟩
  · intro c hc
    rw [release_calls] at hc
    rw [hkeep c fun hin => by have := hlt c hin; omega, release_wake, if_neg (by omega)]
    exact h.fresh c (by omega)

end

/-- A wake is on record, with the waits that were queued when it was
called. -/
def Called (a a' : Spec T) (addr : Addr) (count : Int) (flags : BitVec 32) : Prop :=
  ∃ r, a'.history.wake a.history.calls = some r ∧ r.addr = addr ∧ r.count = count ∧
    r.flags = flags ∧ r.queued = a.queuedOn addr

theorem called_wakeReturn {rc : Except Errno Nat} :
    a.Called ((a.release addr count flags ts).wakeReturn t a.history.calls rc) addr count flags := by
  refine ⟨⟨addr, count, flags, a.queuedOn addr, a.calls ts, some rc⟩, ?_, rfl, rfl, rfl, rfl⟩
  simp [Spec.wakeReturn, History.wakeReturns, release_wake]

theorem called_wakeYield {woken : Nat} :
    a.Called ((a.release addr count flags ts).wakeYield t a.history.calls woken) addr count
      flags := by
  refine ⟨⟨addr, count, flags, a.queuedOn addr, a.calls ts, none⟩, ?_, rfl, rfl, rfl, rfl⟩
  simp [Spec.wakeYield, release_wake]

/-- A thread changes between running and yielding inside a wake. -/
theorem Inv.setStanding (h : a.Inv current) {st : Standing} {current' : Option Nat}
    (hold : (a.standing t).wait = none) (hst : st.wait = none)
    (hyielded : ∀ k woken, st = .yielded k woken →
      ∃ r, a.history.wake k = some r ∧ r.answer = .ok woken)
    (hreturns : ∀ k r, a.history.wake k = some r → r.result = none → current' ≠ some k →
      ∃ u woken, update a.standing t st u = .yielded k woken) :
    Inv { a with standing := update a.standing t st } current' := by
  have hwait : ∀ u, (update a.standing t st u).wait = (a.standing u).wait := by
    intro u
    by_cases hu : u = t
    · subst hu
      simp [hst, hold]
    · rw [update_of_ne hu]
  have hne : ∀ u, (update a.standing t st u).wait ≠ none →
      update a.standing t st u = a.standing u := by
    intro u hu
    refine update_of_ne ?_ _ _
    rintro rfl
    exact hu ((hwait u).trans hold)
  refine ⟨?_, ?_, ?_, h.zero, h.nonzero, ?_, h.both, h.exact, h.result, ?_, hreturns, h.fresh⟩
  · intro u c addr hu
    have hu : update a.standing t st u = .queued c addr := hu
    exact h.queued u c addr ((hne u (by rw [hu]; simp [Standing.wait])).symm.trans hu)
  · intro u c addr hu
    have hu : update a.standing t st u = .released c addr := hu
    exact h.released u c addr ((hne u (by rw [hu]; simp [Standing.wait])).symm.trans hu)
  · intro u v c hu hv
    exact h.distinct u v c ((hwait u).symm.trans hu) ((hwait v).symm.trans hv)
  · intro c hc hd
    obtain ⟨u, addr, hu⟩ := h.pending c hc hd
    exact ⟨u, addr, (hne u (by rw [hwait, hu]; simp [Standing.wait])).trans hu⟩
  · intro u k woken hu
    have hu : update a.standing t st u = .yielded k woken := hu
    by_cases hut : u = t
    · subst hut
      rw [update_self] at hu
      exact hyielded k woken hu
    · rw [update_of_ne hut] at hu
      exact h.yielded u k woken hu

/-- A wake returns what it has to. -/
theorem Inv.wakeReturns (h : a.Inv current)
    (hk : a.history.wake k = some r) {current' : Option Nat}
    (hcurrent : ∀ k', k' ≠ k → current' ≠ some k' → current ≠ some k') :
    Inv { a with history := a.history.wakeReturns k r.answer } current' := by
  have hwake : ∀ k', (a.history.wakeReturns k r.answer).wake k' =
      if k' = k then some { r with result := some r.answer } else a.history.wake k' := by
    intro k'
    by_cases hkk : k' = k
    · simp [History.wakeReturns, hkk, hk]
    · simp [History.wakeReturns, hkk]
  refine ⟨h.queued, h.released, h.distinct, h.zero, h.nonzero, h.pending, ?_, ?_, ?_, ?_, ?_, ?_⟩
  · intro k' c
    rw [hwake]
    refine (h.both k' c).trans ?_
    by_cases hkk : k' = k
    · simp [hkk, hk]
    · simp [hkk]
  · intro k' r' hk'
    rw [hwake] at hk'
    split at hk'
    case isTrue =>
      cases hk'
      have hr := h.exact k r hk
      exact ⟨hr.queued_nodup, hr.nodup, hr.subset, hr.length, hr.invalid⟩
    case isFalse => exact h.exact k' r' hk'
  · intro k' r' rc hk' hr'
    rw [hwake] at hk'
    split at hk'
    case isTrue => cases hk'; exact (Option.some.inj hr').symm
    case isFalse => exact h.result k' r' rc hk' hr'
  · intro t k' woken ht
    obtain ⟨r', hk', hr'⟩ := h.yielded t k' woken ht
    by_cases hkk : k' = k
    · refine ⟨{ r with result := some r.answer }, by rw [hwake, if_pos hkk], ?_⟩
      rw [hkk, hk] at hk'
      cases hk'
      exact hr'
    · exact ⟨r', by rw [hwake, if_neg hkk]; exact hk', hr'⟩
  · intro k' r' hk' hr' hcur
    rw [hwake] at hk'
    split at hk'
    case isTrue => cases hk'; cases hr'
    case isFalse hkk => exact h.returns k' r' hk' hr' (hcurrent k' hkk hcur)
  · intro c hc
    refine ⟨(h.fresh c hc).1, ?_⟩
    rw [hwake, if_neg]
    · exact (h.fresh c hc).2
    · rintro rfl
      rw [(h.fresh c hc).2] at hk
      cases hk

theorem Inv.wakeReturn (h : a.Inv current)
    (hk : a.history.wake k = some r) (hcurrent : current = none ∨ current = some k)
    (ht : a.standing t = .running ∨ ∃ woken, a.standing t = .yielded k woken) :
    (a.wakeReturn t k r.answer).Inv none := by
  have hret : Inv { a with history := a.history.wakeReturns k r.answer } none := by
    refine h.wakeReturns hk fun k' hkk _ => ?_
    rcases hcurrent with rfl | rfl
    · simp
    · exact fun heq => hkk (Option.some.inj heq).symm
  refine hret.setStanding ?_ rfl (by simp) ?_
  · rcases ht with ht | ⟨woken, ht⟩ <;> rw [ht] <;> rfl
  · intro k' r' hk' hr' _
    obtain ⟨u, woken, hu⟩ := hret.returns k' r' hk' hr' (by simp)
    refine ⟨u, woken, (update_of_ne ?_ _ _).trans hu⟩
    rintro rfl
    have hu : a.standing u = .yielded k' woken := hu
    have hkk : k' = k := by
      rcases ht with ht | ⟨woken', ht⟩ <;> rw [ht] at hu <;> cases hu
      rfl
    simp only [hkk, History.wakeReturns, update_self, hk, Option.map_some] at hk'
    cases hk'
    cases hr'

theorem Inv.wakeYield (h : a.Inv (some k)) {woken : Nat}
    (hk : a.history.wake k = some r) (hr : r.answer = .ok woken) (ht : a.standing t = .running) :
    (a.wakeYield t k woken).Inv none := by
  refine h.setStanding (by rw [ht]; rfl) rfl ?_ ?_
  · rintro k' woken' ⟨⟩
    exact ⟨r, hk, hr⟩
  · intro k' r' hk' hr' _
    by_cases hkk : k' = k
    · exact ⟨t, woken, by rw [update_self, hkk]⟩
    · obtain ⟨u, woken', hu⟩ := h.returns k' r' hk' hr' fun heq => hkk (Option.some.inj heq).symm
      refine ⟨u, woken', (update_of_ne ?_ _ _).trans hu⟩
      rintro rfl
      rw [ht] at hu
      cases hu

theorem MayRelease.released
    (h : a.MayRelease addr count ts) (hflags : flags = 0 ∨ flags = FUTEX_YIELD) :
    a.Released addr count flags ts :=
  ⟨h.nodup, h.queued, fun _ => h.length, fun hn => absurd hflags hn⟩

/-- The record of a wake that has released `ts`, with its answer. -/
theorem MayRelease.answer
    (h : a.MayRelease addr count ts) (hflags : flags = 0 ∨ flags = FUTEX_YIELD) :
    (⟨addr, count, flags, a.queuedOn addr, a.calls ts, none⟩ : WakeRecord).answer =
      .ok ts.length := by
  have hvalid : (⟨addr, count, flags, a.queuedOn addr, a.calls ts, none⟩ : WakeRecord).Valid :=
    hflags
  simp [WakeRecord.answer, hvalid, length_calls h.queued]

/-- **The invariant holds in every state that the machine reaches.** -/
theorem Inv.step (h : a.Inv none) (hstep : Step a a') : a'.Inv none := by
  cases hstep with
  | stutter => exact h
  | reject rc hrc => exact h.reject hrc
  | block t addr ht => exact h.block addr ht
  | expire t call addr ht =>
    refine h.leave (by rw [ht]; rfl) (by simp) fun _ => ?_
    rw [(h.queued t call addr ht).2]
  | leave t call addr ht =>
    obtain ⟨-, k, hw⟩ := h.released t call addr ht
    exact h.leave (by rw [ht]; rfl) (fun _ => ⟨k, by rw [hw]⟩) fun hne => absurd rfl hne
  | wakeInvalid t addr count flags ht hflags =>
    have hts : a.Released addr count flags [] :=
      ⟨List.nodup_nil, by simp, fun hv => absurd hv hflags, fun _ => rfl⟩
    have hanswer : (⟨addr, count, flags, a.queuedOn addr, a.calls [], none⟩ : WakeRecord).answer =
        .error .EINVAL := if_neg hflags
    rw [← hanswer]
    exact (h.release hts).wakeReturn (by rw [release_wake, if_pos rfl]) (.inr rfl)
      (.inl ((hts.standing_eq fun _ => by simp [ht]).trans ht))
  | wake t addr count flags ts ht hflags hts =>
    have hrel := hts.released hflags
    rw [← hts.answer hflags]
    exact (h.release hrel).wakeReturn (by rw [release_wake, if_pos rfl]) (.inr rfl)
      (.inl ((hrel.standing_eq fun _ => by simp [ht]).trans ht))
  | wakeYield t addr count flags ts ht hflags hts =>
    have hrel := hts.released hflags
    exact (h.release hrel).wakeYield (by rw [release_wake, if_pos rfl]) (hts.answer hflags)
      ((hrel.standing_eq fun _ => by simp [ht]).trans ht)
  | wakeReturn t k woken ht =>
    obtain ⟨r, hk, hr⟩ := h.yielded t k woken ht
    rw [← hr]
    exact h.wakeReturn hk (.inl rfl) (.inr ⟨woken, ht⟩)

end Spec

end WasiLibc.Futex

import WasiLibc.Lib.Steps
import WasiLibc.Futex.Wakes

/-!
# WasiLibc.Futex.Correct

What holds in every run of any threads that wait and wake:

* `wakeups_exact` — wakes release as many of the queued waits as they were
  asked for, each wait returns 0 exactly if one wake released it, and the
  waitlists are well formed (`Wakeups`);
* `entries_balanced` — the map has an entry exactly for the addresses that
  threads wait on, with their number as its count, and a waitlist is freed
  once, when its last user leaves (`Entries`), as long as no wait is called
  with a relative timeout before now, which takes a reference and does not
  give it back.
-/

namespace WasiLibc.Futex

open Wp

variable {T : Threads} {s s' : State T} {q : Nat → List (Tid T)} {leak : Nat → Nat} {t : Tid T}

/-! ## Steps -/

variable {l : Label T} {call id : Nat} {addr : Addr}

/-- A step whose program ends. -/
theorem exec_of_total {p : M T PUnit} (hprog : program s l = some p)
    {P : State T → Prop} (h : Total p (fun _ s' => P s') s) : ∃ s', exec s l = .ok s' ∧ P s' := by
  obtain ⟨_, s', hp, hP⟩ := exists_ok_of_wp h
  exact ⟨s', by simp [exec, hprog, hp, Except.map], hP⟩

/-- What a step does. -/
def Took (s : State T) (leak : Nat → Nat) (l : Label T) (s' : State T) : Prop :=
  ∃ lose, Stepped s leak lose s' ∧ (lose.isSome = true ↔ Loses s l)

theorem Returned.took {rc : Option Errno}
    (h : Returned s leak t call rc s') (hl : ¬ Loses s l)
    (hstep : Spec.Step s.abs (s.abs.leave t call (.ofErrno rc))) : Took s leak l s' :=
  ⟨none, ⟨h.1, by simp, h.2 ▸ hstep⟩, by simp [hl]⟩

theorem ends_of_total {p : M T PUnit} (hprog : program s l = some p)
    (h : Total p (fun _ s' => Took s leak l s') s) : Ends (exec s l) (Took s leak l) := by
  obtain ⟨s', hs', hP⟩ := exec_of_total hprog h
  rw [hs']
  exact hP

/-- A thread that waits, and has been released. -/
theorem standing_of_woken {stage : Stage}
    (hp : s.thread t = .waiting call addr id stage) (hw : (s.node t).woken = true) :
    s.abs.standing t = .released call addr := by
  simp [State.abs, State.standing, hp, hw]

theorem standing_of_not_woken {stage : Stage}
    (hp : s.thread t = .waiting call addr id stage) (hw : (s.node t).woken = false) :
    s.abs.standing t = .queued call addr := by
  simp [State.abs, State.standing, hp, hw]

/-- **Every step keeps the invariant and is a step of the abstract machine**,
or it is not possible. -/
theorem step_spec (h : Good s q leak) (l : Label T) : Ends (exec s l) (Took s leak l) := by
  have hhost : program s l = none → Ends (exec s l) (Took s leak l) := by
    intro hnone
    simp [exec, hnone, Ends]
  cases l with
  | wait t args env =>
    by_cases ht : s.thread t = .running
    · exact ends_of_total (by simp [program, ht]) (total_futexWait h ht args env)
    · exact hhost (by simp [program, ht])
  | wake t addr count flags =>
    by_cases ht : s.thread t = .running
    · refine ends_of_total (by simp [program, ht]) (wp_mono (total_futexWake h ht addr count flags)
        fun _ s' hs' => ⟨none, hs'.1, by simp [Loses]⟩)
    · exact hhost (by simp [program, ht])
  | resume t =>
    cases hp : s.thread t with
    | running => exact hhost (by simp [program, hp])
    | yielded call woken =>
      refine ends_of_total (by simp [program, hp]) (wp_mono (total_wakeResumed h hp) ?_)
      rintro _ s' ⟨hgood, habs⟩
      refine ⟨none, ⟨⟨q, hgood⟩, by simp, ?_⟩, by simp [Loses]⟩
      rw [habs]
      exact .wakeReturn t call woken (by simp [State.abs, State.standing, hp])
    | waiting call addr id stage =>
      cases stage with
      | resumed =>
        have hw : (s.node t).woken = true := h.staged.fits t call addr id .resumed hp
        refine ends_of_total (by simp [program, hp])
          (wp_mono (total_waitResumed h hp) fun _ s' hs' => hs'.took (by simp [Loses]) ?_)
        exact .leave t call addr (standing_of_woken hp hw)
      | _ => exact hhost (by simp [program, hp])
  | event t event =>
    cases hp : s.thread t with
    | waiting call addr id stage =>
      cases stage with
      | timed sleep f =>
        have hprog : program s (.event t event) =
            some (waitTimeoutEvent t call addr id f event) := by simp [program, hp]
        cases event with
        | subtask =>
          refine ends_of_total hprog (wp_mono (total_deadline h hp) fun _ s' hs' =>
            hs'.took (by simp [Loses]) ?_)
          cases hw : (s.node t).woken with
          | true => exact .leave t call addr (standing_of_woken hp hw)
          | false => exact .expire t call addr (standing_of_not_woken hp hw)
        | futureRead =>
          cases hw : (s.node t).woken with
          | true =>
            refine ends_of_total hprog (wp_mono (total_futureRead h hp hw) ?_)
            rintro _ s' ⟨hgood, habs, -⟩
            refine ⟨none, ⟨⟨q, hgood⟩, by simp, ?_⟩, by simp [Loses]⟩
            rw [habs]
            exact .stutter
          | false =>
            -- no event: the future has not been written
            obtain ⟨-, woken, hn, hf⟩ := h.staged.fits t call addr id _ hp
            obtain rfl : woken = false := by rw [hn] at hw; exact hw
            have hrun : wp (fun e : Fault => e = .host)
                (waitTimeoutEvent t call addr id f .futureRead) (fun _ _ => False) s := by
              simp [waitTimeoutEvent, futureReadEvent, hf]
            simp only [exec, hprog]
            cases hr : waitTimeoutEvent t call addr id f .futureRead s with
            | error e => exact ok_of_wp hrun hr
            | ok p => exact (post_of_wp hrun hr).elim
      | _ => exact hhost (by simp [program, hp])
    | _ => exact hhost (by simp [program, hp])
  | cancelled t =>
    cases hp : s.thread t with
    | waiting call addr id stage =>
      cases stage with
      | cancelling f =>
        have hw := (h.staged.fits t call addr id _ hp).2.1
        refine ends_of_total (by simp [program, hp])
          (wp_mono (total_cancelled h hp) fun _ s' hs' => hs'.took (by simp [Loses]) ?_)
        exact .leave t call addr (standing_of_woken hp hw)
      | _ => exact hhost (by simp [program, hp])
    | _ => exact hhost (by simp [program, hp])

/-! ## Runs -/

theorem ends_next {P : State T → Prop} (h : Ends (exec s l) P)
    (hs' : next s l = some s') : P s' := by
  unfold next at hs'
  cases hx : exec s l with
  | error e => rw [hx] at hs'; cases hs'
  | ok s'' =>
    rw [hx] at hs' h
    cases hs'
    exact h

/-- The invariants hold in every state that a run reaches. -/
theorem good_of_reaches (h : Steps.Reaches next (fun _ _ => True) State.initial s) :
    (∃ q leak, Good s q leak) ∧ s.abs.Inv none := by
  refine h.invariant (I := fun s : State T => (∃ q leak, Good s q leak) ∧ s.abs.Inv none) ?_ ?_
  · exact ⟨⟨_, _, good_initial⟩, Spec.inv_initial⟩
  · rintro s l s' ⟨⟨q, leak, hgood⟩, hinv⟩ - hnext
    obtain ⟨lose, hstep, -⟩ := ends_next (step_spec hgood l) hnext
    obtain ⟨q', hgood'⟩ := hstep.good
    exact ⟨⟨q', _, hgood'⟩, hinv.step hstep.step⟩

/-- As long as no step loses a reference, none is lost. -/
theorem good_of_reaches_kept (h : Steps.Reaches next (fun s l => ¬ Loses s l) State.initial s) :
    ∃ q, Good s q fun _ => 0 := by
  refine h.invariant (I := fun s : State T => ∃ q, Good s q fun _ => 0) ⟨_, good_initial⟩ ?_
  rintro s l s' ⟨q, hgood⟩ hkeep hnext
  obtain ⟨lose, hstep, hlose⟩ := ends_next (step_spec hgood l) hnext
  obtain rfl : lose = none := by
    cases lose with
    | none => rfl
    | some id => exact absurd (hlose.mp rfl) hkeep
  exact hstep.good

/-! ## Wakeups -/

/-- Three threads, for examples. -/
abbrev threeThreads : Threads := ⟨3, by decide⟩

/-- The thread is inside a wait on the address. -/
def Phase.On (addr : Addr) : Phase → Prop
  | .waiting _ a _ _ => a = addr
  | _ => False

instance (addr : Addr) : DecidablePred (Phase.On addr) := fun p =>
  match p with
  | .running => inferInstanceAs (Decidable False)
  | .waiting _ a _ _ => inferInstanceAs (Decidable (a = addr))
  | .yielded _ _ => inferInstanceAs (Decidable False)

/-- The number of threads inside a wait on the address. -/
def State.inside (s : State T) (addr : Addr) : Nat := Count.count (Phase.On addr) s.thread

/-- The map and the heap know who waits. -/
structure Entries (s : State T) : Prop where
  /-- An address is in the map exactly if some thread is inside a wait on
  it. -/
  entry : ∀ addr, s.lookup addr ≠ none ↔ 0 < s.inside addr
  /-- The count of its waitlist is the number of these threads. -/
  refcnt : ∀ addr id, s.lookup addr = some id →
    ∃ wl, s.waitlist id = some wl ∧ wl.refcnt = s.inside addr
  /-- A thread uses the waitlist of its address. -/
  own : ∀ t call addr id stage, s.thread t = .waiting call addr id stage →
    s.lookup addr = some id
  /-- A waitlist that was allocated is freed once it has no users, and only
  once. -/
  freed : ∀ id, id < s.nextWaitlist →
    s.freed.count id = if 0 < s.users id then 0 else 1

/-- The threads inside a wait on an address are the users of its
waitlist. -/
theorem Good.inside_eq (h : Good s q leak)
    (ha : s.lookup addr = some id) : s.inside addr = s.users id := by
  unfold State.inside State.users Count.count
  congr 1
  refine Finset.filter_congr fun u _ => ?_
  cases hp : s.thread u with
  | waiting call a id' stage =>
    have hl := h.counted.entry u call a id' stage hp
    simp only [Phase.On, Phase.Uses]
    constructor
    · rintro rfl
      rw [ha] at hl
      exact (Option.some.inj hl).symm
    · rintro rfl
      exact h.counted.key a addr id' hl ha
  | _ => exact Iff.rfl

theorem Good.inside_pos (h : Good s q leak) (ha : 0 < s.inside addr) :
    s.lookup addr ≠ none := by
  obtain ⟨u, hu⟩ := Count.count_pos_iff.mp ha
  cases hp : s.thread u with
  | waiting call a id stage =>
    rw [hp] at hu
    obtain rfl : a = addr := hu
    simp [h.counted.entry u call a id stage hp]
  | _ => rw [hp] at hu; exact hu.elim

theorem Good.entries (h : Good s q fun _ => 0) : Entries s := by
  have hcount : ∀ addr id, s.lookup addr = some id →
      ∃ wl, s.waitlist id = some wl ∧ wl.refcnt = s.users id ∧ 0 < s.users id := by
    intro addr id ha
    obtain ⟨wl, hwl, hcount, hpos⟩ := h.counted.count addr id ha
    have hpos := hpos.resolve_right (by simp)
    have hcount : wl.refcnt = s.users id := by simpa [Hold.count] using hcount
    exact ⟨wl, hwl, hcount, hcount ▸ hpos⟩
  refine ⟨?_, ?_, h.counted.entry, ?_⟩
  · intro addr
    refine ⟨fun ha => ?_, h.inside_pos⟩
    obtain ⟨id, ha⟩ := Option.ne_none_iff_exists'.mp ha
    rw [h.inside_eq ha]
    exact (hcount addr id ha).choose_spec.2.2
  · intro addr id ha
    obtain ⟨wl, hwl, hrefcnt, -⟩ := hcount addr id ha
    exact ⟨wl, hwl, by rw [hrefcnt, h.inside_eq ha]⟩
  · intro id hid
    rcases h.counted.owned id hid with ⟨addr, ha, hf⟩ | ⟨hf, hnone⟩
    · obtain ⟨-, -, -, hpos⟩ := hcount addr id ha
      rw [if_pos hpos, hf]
    · have hzero : s.users id = 0 := by
        refine h.counted.users_eq_zero fun addr ha => ?_
        obtain ⟨wl, hwl, -⟩ := hcount addr id ha
        rw [hnone] at hwl
        cases hwl
      rw [hzero, hf]
      rfl

/-- A lost reference shows in a count. -/
theorem Good.not_entries (h : Good s q leak)
    (ha : s.lookup addr = some id) (hleak : 0 < leak id) : ¬ Entries s := by
  intro he
  obtain ⟨wl, hwl, hcount, -⟩ := h.counted.count addr id ha
  obtain ⟨wl', hwl', hcount'⟩ := he.refcnt addr id ha
  rw [hwl] at hwl'
  cases hwl'
  rw [hcount, h.inside_eq ha] at hcount'
  simp only [Hold.count] at hcount'
  omega

/-- **The entries of the map are exact in every run in which no wait is
called with a relative timeout before now**, and the first such call that
finds its waitlist makes them inexact. -/
theorem entries_balanced (h : Steps.Reaches next (fun s l => ¬ Loses s l) State.initial s) :
    Entries s ∧ ∀ l s', next s l = some s' → (Entries s' ↔ ¬ Loses s l) := by
  obtain ⟨q, hgood⟩ := good_of_reaches_kept h
  refine ⟨hgood.entries, fun l s' hs' => ?_⟩
  obtain ⟨lose, hstep, hlose⟩ := ends_next (step_spec hgood l) hs'
  obtain ⟨q', hgood'⟩ := hstep.good
  cases lose with
  | none =>
    refine iff_of_true hgood'.entries fun hl => ?_
    cases hlose.mpr hl
  | some id =>
    obtain ⟨addr, ha⟩ := hstep.lost id rfl
    refine iff_of_false (hgood'.not_entries ha ?_) (not_not.mpr (hlose.mp rfl))
    simp [losing]

/-- A wait without a timeout has one entry while it lasts. -/
theorem entries_balanced_waiting :
    ∃ s : State threeThreads, Steps.Reaches next (fun s l => ¬ Loses s l) State.initial s ∧
      s.inside 4 = 1 ∧ Entries s := by
  let args : WaitArgs := ⟨4, 7, .monotonic, none, 0⟩
  let env : WaitEnv := ⟨7, ⟨0, 0⟩, false, ⟨true, true, true⟩⟩
  have hrun : (next (State.initial : State threeThreads) (.wait 0 args env)).map
      (fun s => s.inside 4) = some 1 := by decide +kernel
  obtain ⟨s, hs, hobs⟩ := Option.map_eq_some_iff.mp hrun
  have hok : ¬ Loses (State.initial : State threeThreads) (.wait 0 args env) := by
    rintro ⟨-, ⟨at_, hat, -⟩, -⟩
    cases hat
  have hreach : Steps.Reaches next (fun s l => ¬ Loses s l) State.initial s :=
    Steps.Reaches.refl.snoc hok hs
  exact ⟨s, hreach, hobs, (entries_balanced hreach).1⟩

/-- A wait with a timeout of -1 s returns `-EINVAL`; the entry stays, though
no thread is inside a wait. -/
theorem negative_timeout_keeps_entry :
    ∃ s : State threeThreads, Steps.Reaches next (fun _ _ => True) State.initial s ∧
      (s.history.wait 0).result = some (.neg .EINVAL) ∧ s.lookup 4 = some 0 ∧
      s.inside 4 = 0 ∧ ¬ Entries s := by
  let env : WaitEnv := ⟨7, ⟨0, 0⟩, false, ⟨true, true, true⟩⟩
  have hrun : (([.wait 0 ⟨4, 7, .monotonic, some ⟨-1, 0⟩, 0⟩ env] :
      List (Label threeThreads)).foldlM next State.initial).map
        (fun s => ((s.history.wait 0).result, s.lookup 4, s.inside 4)) =
      some (some (.neg .EINVAL), some 0, 0) := by decide +kernel
  obtain ⟨s, hs, hobs⟩ := Option.map_eq_some_iff.mp hrun
  simp only [Prod.mk.injEq] at hobs
  refine ⟨s, Steps.reaches_of_foldlM hs, hobs.1, hobs.2.1, hobs.2.2, fun he => ?_⟩
  have := (he.entry 4).mp (by simp [hobs.2.1])
  omega

end WasiLibc.Futex

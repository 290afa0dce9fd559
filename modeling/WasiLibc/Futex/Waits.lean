import WasiLibc.Futex.Entries

/-!
# WasiLibc.Futex.Waits

The steps of `__wasilibc_futex_wait` keep the invariant, and are steps of the
abstract machine.
-/

namespace WasiLibc.Futex

open Function Wp

variable {T : Threads} {s s' : State T} {q : Nat → List (Tid T)} {leak : Nat → Nat} {t : Tid T}

/-- Where a thread stands. -/
def State.standing (s : State T) (t : Tid T) : Standing :=
  match s.thread t with
  | .running => .running
  | .waiting call addr _ _ =>
    if (s.node t).woken then .released call addr else .queued call addr
  | .yielded call woken => .yielded call woken

/-- The state of the abstract machine. -/
def State.abs (s : State T) : Spec T := ⟨s.standing, s.history⟩

/-- Only the thread `t` stands differently. -/
theorem standing_update {st : Standing} (hother : ∀ u, u ≠ t → s'.thread u = s.thread u ∧
    (s'.node u).woken = (s.node u).woken) (ht : s'.standing t = st) :
    s'.standing = update s.standing t st := by
  funext u
  by_cases hu : u = t
  · subst hu
    rw [update_self, ht]
  · obtain ⟨hthread, hnode⟩ := hother u hu
    rw [update_of_ne hu, State.standing, State.standing, hthread, hnode]

theorem Untouched.abs (h : Untouched s s') : s'.abs = s.abs := by
  unfold State.abs
  rw [h.history]
  congr 1
  funext u
  simp only [State.standing, h.thread, h.node]

/-- The references that nobody gives back, with one more for `lose`. -/
def losing (leak : Nat → Nat) : Option Nat → Nat → Nat
  | some id => update leak id (leak id + 1)
  | none => leak

/-- What one step may do: the invariant holds afterwards, with no reference
lost unless `lose` says so, and the step is one of the abstract machine. -/
structure Stepped (s : State T) (leak : Nat → Nat) (lose : Option Nat) (s' : State T) : Prop where
  good : ∃ q', Good s' q' (losing leak lose)
  lost : ∀ id, lose = some id → ∃ addr, s'.lookup addr = some id
  step : Spec.Step s.abs s'.abs

/-! ## The end of a wait -/

variable {id call : Nat} {addr : Addr} {stage : Stage} {f : Nat}

/-- A wait that gives its reference back, and returns. -/
theorem total_waitEnd (hL : Linked s q [])
    (hC : Counted s (.taken id) leak) (hS : Staged s) (ha : s.lookup addr = some id)
    (rc : Option Errno) :
    Total (waitEnd call addr id rc) (fun _ s' => Good s' q leak ∧
      s'.abs = { s.abs with history := s.history.waitReturns call (.ofErrno rc) }) s := by
  simp only [waitEnd, wp_bind]
  refine wp_mono (total_releaseFutexEntry hL hC ha) ?_
  rintro _ s₁ ⟨hun, hL₁, hC₁⟩
  have habs := hun.abs
  simp only [waitReturns, total_record]
  refine ⟨⟨⟨hL₁.lists, hL₁.mem⟩, ⟨hC₁.entry, hC₁.count, hC₁.key, hC₁.fresh, hC₁.owned⟩,
    ⟨(hun.staged hS).fits, (hun.staged hS).futures⟩⟩, ?_⟩
  simp only [State.abs, Spec.mk.injEq] at habs ⊢
  refine ⟨habs.1, ?_⟩
  rw [habs.2]

/-- The thread of a wait that was dequeued, or has left its waitlist, goes on
and returns. -/
theorem total_leave {moving : List (Tid T)}
    (hL : Linked s q moving) (hC : Counted s .none leak)
    (hS : Staged { s with thread := update s.thread t .running })
    (hp : s.thread t = .waiting call addr id stage)
    (hm : (s.node t).woken = true ∧ moving = [] ∨ moving = [t]) (rc : Option Errno) :
    Total (do setThread t .running; waitEnd call addr id rc) (fun _ s' => Good s' q leak ∧
      s'.abs = s.abs.leave t call (.ofErrno rc)) s := by
  have hnil : moving.erase t = [] := by
    rcases hm with ⟨-, rfl⟩ | rfl <;> simp
  have hL₁ := hL.leave (t := t) (p := .running) (fun _ h => h)
    (hm.elim (fun h => .inl h.1) fun h => .inr (by simp [h]))
  rw [hnil] at hL₁
  have hC₁ := hC.leave hp (p := .running) fun _ h => h
  simp only [wp_bind, total_setThread]
  refine wp_mono (total_waitEnd hL₁ hC₁ hS (hC.entry t call addr id stage hp) rc) ?_
  rintro _ s' ⟨hgood, habs⟩
  refine ⟨hgood, habs.trans ?_⟩
  simp only [State.abs, Spec.leave, Spec.mk.injEq, and_true]
  exact standing_update (fun u hu => ⟨by simp [hu], rfl⟩) (by simp [State.standing])

/-- A thread that does not wait any more needs no future. -/
theorem Staged.leave (h : Staged s) (hthread : s'.thread = update s.thread t .running)
    (hnode : s'.node = s.node)
    (hfuture : ∀ f, (s.thread t).future ≠ some f → s'.future f = s.future f)
    (hnext : s'.nextFuture = s.nextFuture) : Staged s' := by
  refine h.change t (fun u hu => by rw [hthread, update_of_ne hu])
    (fun _ _ => by rw [hnode]) ?_ (Nat.le_of_eq hnext.symm) ?_ ?_
  · intro u f hu hf
    exact hfuture f fun hft => hu (h.futures u t f hf hft)
  · intro call addr id stage hp
    rw [hthread, update_self] at hp
    cases hp
  · intro u f _ hf
    rw [hthread, update_self] at hf
    cases hf

/-! ## The beginning of a wait -/

/-- The running thread is put into the waitlist and waits. -/
theorem total_block {n : Node} (hn : n.woken = false)
    (hL : Linked s q []) (hC : Counted s (.taken id) leak) (ha : s.lookup addr = some id)
    (ht : s.thread t = .running) :
    Total (do setNode t n; waitlistInsert id t; setThread t (.waiting call addr id stage))
      (fun _ s' => (∃ q', Linked s' q' []) ∧ Counted s' .none leak ∧
        s'.standing = update s.standing t (.queued call addr) ∧
        s'.thread = update s.thread t (.waiting call addr id stage) ∧
        s'.node = update s.node t n ∧ s'.future = s.future ∧
        s'.nextFuture = s.nextFuture ∧ s'.history = s.history) s := by
  have hrun : ∀ id, ¬ (s.thread t).Uses id := by
    intro id
    rw [ht]
    exact fun h => h
  have hnode : { n with woken := false } = n := by rw [← hn]
  obtain ⟨wl, hwl, -, -⟩ := hC.count addr id ha
  simp only [wp_bind, total_setNode]
  refine (total_waitlistInsert (by exact hwl)).mpr ?_
  simp only [total_setThread]
  refine ⟨⟨_, hL.block hwl hrun call addr stage⟩, ?_, ?_, rfl, ?_, rfl, rfl, rfl⟩
  · have hC₁ : Counted (({ s with node := update s.node t n } : State T).inserted id wl t)
        (.taken id) leak := hC.setList hwl _ rfl rfl rfl rfl rfl
    exact hC₁.block hrun ha call stage
  · refine standing_update (fun u hu => ?_) ?_
    · simp [State.inserted, hu]
    · simp [State.standing, State.inserted]
  · simp [State.inserted, hnode]

/-- `wait_indefinitely`. -/
theorem total_waitIndefinitely (hL : Linked s q [])
    (hC : Counted s (.taken id) leak) (hS : Staged s) (ha : s.lookup addr = some id)
    (ht : s.thread t = .running) :
    Total (waitIndefinitely t call addr id) (fun _ s' => (∃ q', Good s' q' leak) ∧
      s'.abs = ⟨update s.standing t (.queued call addr), s.history⟩) s := by
  unfold waitIndefinitely
  refine wp_mono (total_block rfl hL hC ha ht) ?_
  rintro _ s' ⟨⟨q', hL'⟩, hC', hst, hthread, hnode, hfuture, hnext, hhist⟩
  refine ⟨⟨q', hL', hC', ?_⟩, by rw [State.abs, hst, hhist]⟩
  refine hS.change t (fun u hu => by rw [hthread, update_of_ne hu])
    (fun u hu => by rw [hnode, update_of_ne hu]) (fun _ _ _ _ => by rw [hfuture])
    (Nat.le_of_eq hnext.symm) ?_ ?_
  · intro call' addr' id' stage' h
    rw [hthread, update_self] at h
    cases h
    show s'.node t = ⟨.tid, t, false⟩
    rw [hnode, update_self]
  · intro u f _ h
    rw [hthread, update_self] at h
    cases h

/-- `wait_timeout` up to its wait: it gives up, or the thread waits with a
future of its own. -/
theorem total_waitTimeout (hL : Linked s q [])
    (hC : Counted s (.taken id) leak) (hS : Staged s) (ha : s.lookup addr = some id)
    (ht : s.thread t = .running) (clk : ClockId) (at_ : Timespec) (flags : BitVec 32)
    (env : WaitEnv) :
    Total (waitTimeout t call addr id clk at_ flags env) (fun r s' =>
      match r with
      | some _ => s' = s
      | none => (∃ q', Good s' q' leak) ∧
          s'.abs = ⟨update s.standing t (.queued call addr), s.history⟩) s := by
  unfold waitTimeout
  cases waitTimeoutSleep clk at_ flags env.now with
  | error e => exact rfl
  | ok sleep =>
    by_cases helapsed : env.elapsed = true
    · simp only [if_pos helapsed]
      exact rfl
    · simp only [if_neg helapsed]
      -- the future is new, and its read is pending
      let s₁ : State T := { s with
        nextFuture := s.nextFuture + 1
        future := update s.future s.nextFuture ⟨true, false, false, true, true⟩ }
      have hL₁ : Linked s₁ q [] := ⟨hL.lists, hL.mem⟩
      have hC₁ : Counted s₁ (.taken id) leak :=
        ⟨hC.entry, hC.count, hC.key, hC.fresh, hC.owned⟩
      have hblock : Total (do
          setNode t ⟨.future, s.nextFuture, false⟩
          waitlistInsert id t
          setThread t (.waiting call addr id (.timed sleep s.nextFuture)))
          (fun _ s' => (∃ q', Good s' q' leak) ∧
            s'.abs = ⟨update s.standing t (.queued call addr), s.history⟩) s₁ := by
        refine wp_mono (total_block rfl hL₁ hC₁ ha ht) ?_
        rintro _ s' ⟨⟨q', hL'⟩, hC', hst, hthread, hnode, hfuture, hnext, hhist⟩
        refine ⟨⟨q', hL', hC', ?_⟩, by rw [State.abs, hst, hhist]; rfl⟩
        have hfresh : ∀ u f, (s.thread u).future = some f → f ≠ s.nextFuture :=
          fun u f hf => Nat.ne_of_lt (hS.future_lt hf)
        refine hS.change t (fun u hu => by rw [hthread, update_of_ne hu])
          (fun u hu => by rw [hnode, update_of_ne hu]) ?_ ?_ ?_ ?_
        · intro u f _ hf
          rw [hfuture]
          exact update_of_ne (hfresh u f hf) _ _
        · rw [hnext]
          exact Nat.le_succ _
        · intro call' addr' id' stage' h
          rw [hthread, update_self] at h
          cases h
          refine ⟨by rw [hnext]; exact Nat.lt_succ_self _, false, ?_, ?_⟩
          · rw [hnode, update_self]
          · rw [hfuture]
            exact update_self _ _ _
        · intro u f _ h hf
          rw [hthread, update_self] at h
          cases h
          exact hfresh u _ hf rfl
      have hread : Total (futureRead s.nextFuture)
          (fun rc s' => rc = .blocked ∧ s' = s₁)
          { s with
            nextFuture := s.nextFuture + 1
            future := update s.future s.nextFuture
              ⟨false, false, false, true, true⟩ } := by
        simp [futureRead, setFuture, s₁]
      simp only [wp_bind, futureNew, wp_get, wp_modify, setFuture, wp_pure]
      refine wp_mono hread ?_
      rintro rc s₂ ⟨rfl, rfl⟩
      simp only [total_assert, true_and]
      simpa only [wp_bind, wp_pure] using hblock

/-! ## The call -/

theorem Good.setHistory (h : Good s q leak) (history : History) :
    Good { s with history := history } q leak :=
  ⟨⟨h.linked.lists, h.linked.mem⟩,
    ⟨h.counted.entry, h.counted.count, h.counted.key, h.counted.fresh, h.counted.owned⟩,
    ⟨h.staged.fits, h.staged.futures⟩⟩

/-- The arguments of a wait pass its checks, with `word` at the address. -/
def WaitArgs.Passes (args : WaitArgs) (word : Int) : Prop :=
  args.flags &&& ~~~FUTEX_TIMESPEC_ABSOLUTE = 0 ∧ args.addr % 4 = 0 ∧ word = args.val ∧
    ∀ at_, args.at_ = some at_ → at_.tvNsec.toNat < 1000000000

theorem waitChecks_ne_zero (args : WaitArgs) (word : Int) : waitChecks args word ≠ some .zero := by
  unfold waitChecks
  repeat' split
  all_goals simp_all

theorem waitChecks_eq_none_iff {args : WaitArgs} {word : Int} :
    waitChecks args word = none ↔ args.Passes word := by
  unfold waitChecks WaitArgs.Passes
  by_cases hflags : args.flags &&& ~~~FUTEX_TIMESPEC_ABSOLUTE = 0
  · by_cases haddr : args.addr % 4 = 0
    · by_cases hword : word = args.val
      · cases hat : args.at_ with
        | none => simp [hflags, haddr, hword]
        | some at_ =>
          have hsign : at_.tvNsec.toNat < 1000000000 → ¬ at_.tvNsec.toInt < 0 := by
            intro hlt
            rw [BitVec.toInt_eq_toNat_of_lt (by omega)]
            omega
          by_cases hnsec : at_.tvNsec.toNat < 1000000000
          · simp [hflags, haddr, hword, hnsec, hsign hnsec, Nat.not_le.mpr hnsec]
          · simp [hflags, haddr, hword, hnsec, Nat.not_lt.mp hnsec]
      · simp [hflags, haddr, hword]
    · simp [hflags, haddr]
  · rw [if_pos hflags]
    exact iff_of_false (by simp) fun hp => hflags hp.1

/-- A step that takes a reference and does not give it back: a wait with a
relative timeout before now, that passes the checks and finds its
waitlist. -/
def Loses (s : State T) : Label T → Prop
  | .wait _ args env => args.Passes env.word ∧
      (∃ at_, args.at_ = some at_ ∧ isAbsolute args.flags = false ∧ at_.tvSec < 0) ∧
      s.Findable args.addr env.mem
  | _ => False

/-- A wait that has taken its reference: it returns, or the thread waits. -/
theorem total_futexWait_taken {args : WaitArgs} {env : WaitEnv}
    (hL : Linked s q []) (hC : Counted s (.taken id) leak) (hS : Staged s)
    (ha : s.lookup args.addr = some id) (ht : s.thread t = .running) :
    Total (match args.at_ with
      | some at_ =>
        if ¬ isAbsolute args.flags ∧ at_.tvSec < 0 then waitReturns call (.neg .EINVAL)
        else do
          match ← waitTimeout t call args.addr id args.clk at_ args.flags env with
          | some e => waitEnd call args.addr id (some e)
          | none => return ⟨⟩
      | none => waitIndefinitely t call args.addr id)
      (fun _ s' => ∃ lose, (∃ q', Good s' q' (losing leak lose)) ∧
        (∀ id, lose = some id → ∃ addr, s'.lookup addr = some id) ∧
        ((∃ e, s'.abs = { s.abs with history := s.history.waitReturns call (.neg e) }) ∨
          s'.abs = ⟨update s.standing t (.queued call args.addr), s.history⟩) ∧
        (lose.isSome = true ↔
          ∃ at_, args.at_ = some at_ ∧ isAbsolute args.flags = false ∧ at_.tvSec < 0)) s := by
  cases hat : args.at_ with
  | none =>
    refine wp_mono (total_waitIndefinitely hL hC hS ha ht) ?_
    rintro _ s' ⟨hgood, habs⟩
    exact ⟨none, hgood, by simp, .inr habs, by simp⟩
  | some at_ =>
    by_cases hneg : ¬ isAbsolute args.flags ∧ at_.tvSec < 0
    · simp only [if_pos hneg, waitReturns, total_record]
      refine ⟨some id, ⟨q, Good.setHistory ⟨hL, hC.lose ha, hS⟩ _⟩, ?_, .inl ⟨.EINVAL, rfl⟩, ?_⟩
      · rintro id' ⟨⟩
        exact ⟨args.addr, ha⟩
      · simpa using hneg
    · simp only [if_neg hneg, wp_bind]
      have hlose : ¬ ∃ a, some at_ = some a ∧ isAbsolute args.flags = false ∧ a.tvSec < 0 := by
        rintro ⟨a, ⟨⟩, habs, hsec⟩
        exact hneg ⟨by simp [habs], hsec⟩
      refine wp_mono (total_waitTimeout hL hC hS ha ht args.clk at_ args.flags env) ?_
      intro r s₁ h₁
      cases r with
      | none => exact ⟨none, h₁.1, by simp, .inr h₁.2, by simpa using hlose⟩
      | some e =>
        obtain rfl : s₁ = s := h₁
        refine wp_mono (total_waitEnd hL hC hS ha (some e)) ?_
        rintro _ s' ⟨hgood, habs⟩
        exact ⟨none, ⟨q, hgood⟩, by simp, .inl ⟨e, habs⟩, by simpa using hlose⟩

theorem total_futexWait (h : Good s q leak) (ht : s.thread t = .running) (args : WaitArgs)
    (env : WaitEnv) :
    Total (futexWait t args env) (fun _ s' => ∃ lose, Stepped s leak lose s' ∧
      (lose.isSome = true ↔ Loses s (.wait t args env))) s := by
  simp only [futexWait, wp_bind, wp_get, total_record]
  cases hchecks : waitChecks args env.word with
  | some rc =>
    have hrc : rc ≠ .zero := fun h0 => waitChecks_ne_zero args env.word (h0 ▸ hchecks)
    have hpass : ¬ args.Passes env.word := by
      rw [← waitChecks_eq_none_iff, hchecks]
      simp
    refine ⟨none, ⟨⟨q, h.setHistory _⟩, by simp, .reject rc hrc⟩, ?_⟩
    simp [Loses, hpass]
  | none =>
    have hpass := waitChecks_eq_none_iff.mp hchecks
    have h₀ := h.setHistory s.history.waitCalled
    simp only [wp_bind]
    refine wp_mono (total_findFutexEntry h₀.linked h₀.counted args.addr env.mem) ?_
    rintro r s₁ ⟨hun, hL₁, hfind, hr⟩
    have hfind : r.isSome = true ↔ s.Findable args.addr env.mem := hfind
    have habs₁ : s₁.abs = ⟨s.standing, s.history.waitCalled⟩ := hun.abs
    -- a wait that returns an error has not been queued
    have hreject : ∀ (s' : State T) (rc : Rc), rc ≠ .zero →
        s'.abs = { s₁.abs with history := s₁.history.waitReturns s.history.calls rc } →
        Spec.Step s.abs s'.abs := by
      intro s' rc hrc habs
      simp only [State.abs, Spec.mk.injEq] at habs₁
      have : s'.abs = s.abs.reject rc := by
        rw [habs, habs₁.2]
        simp only [State.abs, Spec.reject, habs₁.1]
      rw [this]
      exact .reject rc hrc
    cases r with
    | none =>
      have hnot : ¬ s.Findable args.addr env.mem := by simp [← hfind]
      exact ⟨none, ⟨⟨q, Good.setHistory ⟨hL₁, hr, hun.staged h₀.staged⟩ _⟩, by simp,
        hreject _ (.pos .ENOMEM) (by simp) rfl⟩, by simp [Loses, hnot]⟩
    | some id =>
      simp only [wp_bind]
      refine wp_mono (total_retain hL₁ hr.1 hr.2) ?_
      rintro _ s₂ ⟨hun₂, hL₂, hC₂, ha₂⟩
      have ht₂ : s₂.thread t = .running := by rw [hun₂.thread, hun.thread]; exact ht
      refine wp_mono (total_futexWait_taken hL₂ hC₂ (hun₂.staged (hun.staged h₀.staged)) ha₂
        ht₂) ?_
      rintro _ s' ⟨lose, hgood, hlost, habs, hlose⟩
      refine ⟨lose, ⟨hgood, hlost, ?_⟩, ?_⟩
      · have habs₂ := hun₂.abs
        rcases habs with ⟨e, habs⟩ | habs
        · refine hreject s' (.neg e) (by simp) ?_
          rw [habs, habs₂, hun₂.history]
        · have : s'.abs = s.abs.block t args.addr := by
            simp only [State.abs, Spec.mk.injEq] at habs₁ habs₂ habs
            simp only [State.abs, Spec.block, Spec.mk.injEq]
            exact ⟨by rw [habs.1, habs₂.1, habs₁.1], by rw [habs.2, habs₂.2, habs₁.2]⟩
          rw [this]
          exact .block t args.addr (by simp [State.abs, State.standing, ht])
      · rw [hlose]
        have hsome : s.Findable args.addr env.mem := hfind.mp rfl
        simp [Loses, hpass, hsome]

/-! ## The rest of a wait -/

/-- Wait `call` of the thread `t` has returned. -/
def Returned (s : State T) (leak : Nat → Nat) (t : Tid T) (call : Nat) (rc : Option Errno)
    (s' : State T) : Prop :=
  (∃ q', Good s' q' leak) ∧ s'.abs = s.abs.leave t call (.ofErrno rc)

theorem total_waitResumed (h : Good s q leak)
    (hp : s.thread t = .waiting call addr id .resumed) :
    Total (waitResumed t call addr id) (fun _ s' => Returned s leak t call none s') s := by
  have hwoken : (s.node t).woken = true := h.staged.fits t call addr id .resumed hp
  refine wp_mono (total_leave h.linked h.counted (h.staged.leave rfl rfl (fun _ _ => rfl) rfl) hp
    (.inl ⟨hwoken, rfl⟩) none) ?_
  rintro _ s' ⟨hgood, habs⟩
  exact ⟨⟨q, hgood⟩, habs⟩

/-- The end of a timed wait.  `s` is the state at the switch, whose future
`f` has no pending read any more. -/
theorem total_waitTimeoutEnd {woken : Bool}
    (h : Good s q leak) (hp : s.thread t = .waiting call addr id stage)
    (hf : (s.thread t).future = some f) (hw : (s.node t).woken = woken) :
    Total (waitTimeoutEnd t call addr id f)
      (fun _ s' => Returned s leak t call (if woken then none else some .ETIMEDOUT) s')
      { s with future := update s.future f ⟨false, woken, woken, true, true⟩ } := by
  have hstaged : ∀ s' : State T, s'.thread = update s.thread t .running →
      s'.node = s.node → (∀ g, g ≠ f → s'.future g = s.future g) →
      s'.nextFuture = s.nextFuture → Staged s' := by
    intro s' hthread hnode hfuture hnext
    refine h.staged.leave hthread hnode (fun g hg => hfuture g ?_) hnext
    rintro rfl
    exact hg hf
  -- the state after the futures are gone differs from `s` in `f` only
  have hC : ∀ g, Counted { s with future := update s.future f g } .none leak := fun _ =>
    ⟨h.counted.entry, h.counted.count, h.counted.key, h.counted.fresh, h.counted.owned⟩
  have hL : ∀ g, Linked { s with future := update s.future f g } q [] := fun _ =>
    ⟨h.linked.lists, h.linked.mem⟩
  simp only [waitTimeoutEnd, futureDropReadable, wp_bind, wp_get, update_self, wp_require,
    setFuture, wp_modify, update_idem, hw]
  refine ⟨fun _ => ?_, by simp⟩
  cases woken with
  | true =>
    simp only [not_true_eq_false, if_false, futureDropWritable, wp_bind, wp_get,
      update_self, wp_require, setFuture, wp_modify, update_idem, if_true]
    refine ⟨fun _ => ?_, by simp⟩
    have hend : Total (do setThread t .running; waitEnd call addr id none)
        (fun _ s' => Returned s leak t call none s')
        { s with future := update s.future f ⟨false, true, true, false, false⟩ } := by
      refine wp_mono (total_leave (hL _) (hC _)
        (hstaged _ rfl rfl (fun g hg => by simp [hg]) rfl) hp (.inl ⟨hw, rfl⟩) none) ?_
      rintro _ s' ⟨hgood, habs⟩
      exact ⟨⟨q, hgood⟩, habs⟩
    simpa only [wp_bind] using hend
  | false =>
    have hmem : t ∈ q id := (h.linked.mem t id).mpr ⟨by rw [hp]; rfl, hw, by simp⟩
    obtain ⟨wl, hwl, -⟩ := h.counted.count addr id (h.counted.entry t call addr id stage hp)
    simp only [Bool.false_eq_true, not_false_eq_true, if_true, wp_bind]
    refine (total_waitlistRemove (by exact hwl)).mpr ?_
    simp only [State.removed, futureWrite, futureDropWritable, wp_bind, wp_get,
      update_self, wp_require, setFuture, wp_modify, update_idem, if_true,
      Bool.false_eq_true, not_false_eq_true, wp_pure, total_assert, if_false]
    refine ⟨fun _ => ⟨trivial, fun _ => ?_, by simp⟩, by simp⟩
    have hend : Total (do setThread t .running; waitEnd call addr id (some .ETIMEDOUT))
        (fun _ s' => Returned s leak t call (some .ETIMEDOUT) s')
        (({ s with future := update s.future f ⟨false, false, true, false, false⟩ } :
          State T).removed id wl t) := by
      refine wp_mono (total_leave ((hL _).removed hwl hmem)
        ((hC _).setList hwl _ rfl rfl rfl rfl rfl)
        (hstaged _ rfl rfl (fun g hg => by simp [State.removed, hg]) rfl) hp (.inr rfl)
        (some .ETIMEDOUT)) ?_
      rintro _ s' ⟨hgood, habs⟩
      exact ⟨⟨_, hgood⟩, habs⟩
    simpa only [wp_bind, State.removed] using hend

theorem total_cancelled (h : Good s q leak)
    (hp : s.thread t = .waiting call addr id (.cancelling f)) :
    Total (waitTimeoutEnd t call addr id f) (fun _ s' => Returned s leak t call none s') s := by
  obtain ⟨-, hw, hf⟩ := h.staged.fits t call addr id _ hp
  have hend := total_waitTimeoutEnd h hp (by rw [hp]; rfl) hw
  rw [← hf, update_eq_self] at hend
  exact hend

/-- The deadline of a timed wait.  It returns 0 all the same if it has been
dequeued. -/
theorem total_deadline {sleep : Sleep} (h : Good s q leak)
    (hp : s.thread t = .waiting call addr id (.timed sleep f)) :
    Total (waitTimeoutEvent t call addr id f .subtask) (fun _ s' => Returned s leak t call
      (if (s.node t).woken then none else some .ETIMEDOUT) s') s := by
  obtain ⟨-, woken, hn, hf⟩ := h.staged.fits t call addr id _ hp
  have hw : (s.node t).woken = woken := by rw [hn]
  have hend := total_waitTimeoutEnd h hp (by rw [hp]; rfl) hw
  simp only [waitTimeoutEvent, futureCancelRead, wp_bind, wp_get, hf, wp_require, setFuture,
    wp_modify, wp_pure, hw]
  refine ⟨fun _ => ?_, by simp⟩
  cases woken with
  | true => simpa [hf] using hend
  | false => simpa [hf] using hend

/-- The event of the future, which has been written.  The thread goes on to
cancel its sleep. -/
theorem total_futureRead {sleep : Sleep} (h : Good s q leak)
    (hp : s.thread t = .waiting call addr id (.timed sleep f)) (hw : (s.node t).woken = true) :
    Total (waitTimeoutEvent t call addr id f .futureRead) (fun _ s' => Good s' q leak ∧
      s'.abs = s.abs ∧ s'.thread t = .waiting call addr id (.cancelling f)) s := by
  obtain ⟨hlt, woken, hn, hf⟩ := h.staged.fits t call addr id _ hp
  obtain rfl : woken = true := by rw [hn] at hw; exact hw
  simp only [waitTimeoutEvent, futureReadEvent, wp_bind, wp_get, hf, wp_require, setFuture,
    wp_modify, total_setThread]
  refine ⟨fun _ => ⟨⟨?_, ?_, ?_⟩, ?_, update_self _ _ _⟩, by simp⟩
  · have hL := h.linked.setStage hp (.cancelling f)
    exact ⟨hL.lists, hL.mem⟩
  · have hC := h.counted.setStage hp (.cancelling f)
    exact ⟨hC.entry, hC.count, hC.key, hC.fresh, hC.owned⟩
  · refine h.staged.change t (fun u hu => by simp [hu]) (fun _ _ => rfl) ?_ (Nat.le_refl _) ?_ ?_
    · intro u g hu hg
      refine update_of_ne ?_ _ _
      rintro rfl
      exact hu (h.staged.futures u t g hg (by rw [hp]; rfl))
    · intro call' addr' id' stage' hst
      simp only [update_self, Phase.waiting.injEq] at hst
      obtain ⟨-, -, -, rfl⟩ := hst
      exact ⟨hlt, hw, update_self _ _ _⟩
    · intro u g hu hg hug
      simp only [update_self, Phase.future, Option.some.injEq] at hg
      subst hg
      exact hu (h.staged.futures u t f hug (by rw [hp]; rfl))
  · simp only [State.abs, Spec.mk.injEq, and_true]
    funext u
    by_cases hu : u = t
    · subst hu
      simp [State.standing, hp]
    · simp [State.standing, hu]

end WasiLibc.Futex

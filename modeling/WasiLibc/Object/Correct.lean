import WasiLibc.Object.Closing
import WasiLibc.Object.Polling
import WasiLibc.Lib.Steps

/-!
# WasiLibc.Object.Correct

No state is zeroed while a thread uses it, in any run of any number of
threads, as long as no blocking write begins while another thread flushes the
write half in order to close it.
-/

namespace WasiLibc.Object

open Futex Wp

variable {T : Threads} {s₀ s s' : State T} {t : Tid T} {may : Dir → Prop} {l : Label T}

/-! ## Calls -/

/-- The call that begins in a step, under the object's lock. -/
def State.begins (s : State T) (l : Label T) : Option Call :=
  if 0 ≤ (s.lock .object).word then
    match l, s.thread l.tid with
    | .call _ c _, .idle => some c
    | .resume _ _, .locking .object (.begin c) => some c
    | _, _ => none
  else none

/-- A blocking write begins in the step. -/
def BeginsWrite (s : State T) (l : Label T) : Prop :=
  ∃ buffer dontwait, s.begins l = some (.io (.write buffer) dontwait) ∧
    (s.kind = .tcp → s.blocking = true ∧ dontwait = false)

/-- Only a write that begins may bounce on the write half. -/
def mayBounce (s : State T) (l : Label T) (d : Dir) : Prop := d = .write → BeginsWrite s l

theorem Held.begin {c : Call} (h : Held s₀ t (mayBounce s₀ l) s)
    (hblocking : s.blocking = s₀.blocking) (hbegins : s₀.begins l = some c) (hpoll : ∀ fds, c ≠ .poll fds) :
    Stops s₀ t (mayBounce s₀ l) (begin t c) s := by
  cases c with
  | io what dontwait =>
    refine wp_bind.mpr (wp_mono (h.getStream what dontwait) ?_)
    rintro c s₁ ⟨h₁, hwaiters₁, hwhat, hfile, htcp⟩
    refine Held.transfer h₁ (fun hblocks _ hd => ?_) fun hc => hfile (h.kind.trans hc.kind)
    cases what with
    | read length => rw [Io.dir, hwhat] at hd; cases hd
    | write buffer =>
      refine ⟨buffer, dontwait, hbegins, fun hkind => ?_⟩
      have := htcp (h.kind.trans hkind)
      rw [hblocks, hblocking] at this
      simpa using this.symm
  | setBlocking blocking => exact wp_bind.mpr (wp_modify.mpr (Held.leave (h.same (by rfl) (by rfl)) _))
  | shutdown how => exact h.shutdown
  | seek offset whence => exact h.seek
  | poll fds => exact absurd rfl (hpoll fds)

/-! ## Steps -/

/-- The thread has waited for the object's lock and has it. -/
theorem Mid.acquired {k : Cont} (h : Mid s₀ t (mayBounce s₀ l)
      (role .holding k.owned (Phase.locking .object k).bounces) s)
    (hwaiters : s.waiters = s₀.waiters) (hblocking : s.blocking = s₀.blocking)
    (ht : s₀.thread t = .locking .object k) (hbegins : ∀ c, k = .begin c → s₀.begins l = some c) :
    Stops s₀ t (mayBounce s₀ l) (acquired t k) s := by
  have hformed := h.formed t
  have hplain : Calm s₀ → (Phase.locking .object k).Plain := fun hc => ht ▸ hc.plain t
  rw [ht] at hformed
  cases k with
  | begin c =>
    refine Held.begin h hblocking (hbegins c rfl) ?_
    rintro fds rfl
    exact hformed.2
  | bounced c => exact hformed.2.elim
  | retry c => exact h.retry hwaiters hplain
  | pendingEnd p event =>
    refine h.pendingEnd hwaiters (fun hf => ?_) hplain
    rw [ht]
    cases p <;> exact hf
  | transferEnd c amount done => exact h.transferEnd amount done
  | register todo regs => exact h.pollResumed hformed.2 hformed.1 hplain
  | ready d event regs => exact h.pollReady hformed.1 hplain
  | cleanup d regs result =>
    obtain ⟨hd, hdup⟩ := List.nodup_cons.mp hformed.1
    refine wp_bind.mpr (wp_mono (h.pollCancelled hd) ?_)
    intro _ s₁ h₁
    exact Mid.pollCleanup _ regs s₁ h₁ hdup hplain

/-- A thread that waits for the host and holds the object's lock. -/
theorem Good.held {w : Wait} (h : Good s) (ht : s.thread t = .waiting w)
    (hholds : w.holds = true) (howned : w.owned = []) : Held s t may s := by
  have hmid := h.mid t may
  rw [State.roles, ht, role_holding hholds howned] at hmid
  exact hmid.actLock (hmid.inv.setClear (c := fun _ => false) (by simp)) rfl

/-- What it has found unused is still so. -/
theorem Good.unused {w : Wait} {d : Dir} (h : Good s) (ht : s.thread t = .waiting w)
    (hd : w.clear d = true) : s.Unused d := by
  refine (h.inv.clear t d ?_).2
  rw [State.roles, ht]
  exact hd

/-- A thread that waits for the host in blocking operations. -/
theorem Good.blocking {w : Wait} (h : Good s) (ht : s.thread t = .waiting w)
    (hholds : w.holds = false) (hclear : ∀ d, w.clear d = false) :
    Mid s t may (role .outside w.owned none) s := by
  have hmid := h.mid t may
  rw [State.roles, ht, role_waiting hclear, hholds] at hmid
  exact hmid

theorem Good.answered {w : Wait} (h : Good s) (ht : s.thread t = .waiting w) :
    Stops s t may (answered t w) s := by
  have hplain : Calm s → (Phase.waiting w).Plain := fun hc => ht ▸ hc.plain t
  cases w with
  | pending p =>
    have hflush : (Phase.waiting (.pending p)).Flushes → (s.thread t).Flushes :=
      fun hf => ht ▸ hf
    have hmid : Mid s t may (role .outside [p.dir] none) s := h.blocking ht rfl fun _ => rfl
    have hkeeps := Stream.keeps_waitableBlockOn p.timeout
    refine wp_bind.mpr (runs_onEnd hmid hkeeps.shared (fun _ => hkeeps) ?_)
    intro event s₁ h₁ hsame
    refine wp_bind.mpr (wp_mono (h₁.lock rfl rfl ⟨by simp [Phase.owned, Cont.owned], trivial⟩
      (fun hf => .inl (hflush (by cases p <;> exact hf))) fun hc => (hplain hc).elim) ?_)
    intro got s₂ hlocked
    cases got with
    | false => exact hlocked
    | true =>
      obtain ⟨h₂, ⟨lk, rfl⟩, _⟩ := hlocked
      exact h₂.pendingEnd hsame.waiters hflush hplain
  | transfer c status =>
    have hmid : Mid s t may (role .outside [c.dir] none) s := h.blocking ht rfl fun _ => rfl
    have hkeeps := Stream.keeps_streamBlockOnTimeout status c.timeout
    refine wp_bind.mpr (runs_onEnd hmid hkeeps.shared (fun _ => hkeeps) ?_)
    rintro ⟨amount, done⟩ s₁ h₁ _
    refine wp_bind.mpr (wp_mono (h₁.lock rfl rfl ⟨by simp [Phase.owned, Cont.owned], trivial⟩
      False.elim fun _ => trivial) ?_)
    intro got s₂ hlocked
    cases got with
    | false => exact hlocked
    | true => exact hlocked.1.transferEnd amount done
  | polling regs =>
    have hformed := h.formed t
    rw [ht] at hformed
    exact (h.blocking ht rfl fun _ => rfl).polling hformed.1 hplain
  | nonblocking c => exact Held.nonblocking (h.held ht rfl rfl) hplain
  | eof c => exact Held.eof (h.held ht rfl rfl)
  | stat offset whence => exact Held.stat (h.held ht rfl rfl) (h.unused ht rfl) (h.unused ht rfl)
  | cancelRead write after =>
    exact Held.cancelRead (h.held ht rfl rfl) (h.unused ht rfl) fun hw => h.unused ht hw
  | cancelWrite after => exact Held.cancelWrite (h.held ht rfl rfl) (h.unused ht rfl)

/-- The thread is given what the host does in the step. -/
theorem Good.env (h : Good s) (env : Env) : Good { s with env := env } :=
  ⟨h.inv, h.formed, fun hk => ⟨(h.file hk).kind, (h.file hk).inprogress, (h.file hk).plain⟩⟩

theorem Slice.of_env {env : Env} (h : Slice { s with env := env } t may s') : Slice s t may s' :=
  ⟨h.log, h.good, h.others, h.waiters, h.flush, h.kind⟩

theorem Good.resume (h : Good s) {env : Env} {k : Cont} (ht : s.thread t = .locking .object k) :
    Stops s t (mayBounce s (.resume t env))
      (do if ← Object.relock t .object then acquired t k) s := by
  have hrelock : Runs (Object.relock t .object) (Locked s t k.owned
      (Phase.locking .object k).bounces (mayBounce s (.resume t env)) s) s := h.relock ht rfl
  refine wp_bind.mpr (wp_mono hrelock ?_)
  intro got s₁ hlocked
  cases got with
  | false => exact hlocked
  | true =>
    obtain ⟨h₁, ⟨lk, rfl⟩, hword⟩ := hlocked
    refine h₁.acquired rfl rfl ht ?_
    rintro c rfl
    simp [State.begins, hword, Label.tid, ht]

theorem Good.call (h : Good s) {env : Env} {c : Call} (ht : s.thread t = .idle)
    (hsupported : c.supported s.kind = true) :
    Stops s t (mayBounce s (.call t c env)) (Object.call t c) s := by
  have hmid : Mid s t (mayBounce s (.call t c env)) (role .outside [] none) s := by
    have := h.mid t (mayBounce s (.call t c env))
    rwa [State.roles, ht, role_idle] at this
  have hplain : Calm s → (Phase.locking .object (.begin c)).Plain := by
    intro hc
    rw [hc.kind] at hsupported
    cases c <;> trivial
  by_cases hpoll : ∃ fds, c = .poll fds
  · obtain ⟨fds, rfl⟩ := hpoll
    exact Mid.pollLoop fds [] s hmid List.nodup_nil hplain
  · have hpoll : ∀ fds, c ≠ .poll fds := fun fds hc => hpoll ⟨fds, hc⟩
    have hformed : (Phase.locking .object (.begin c)).Formed := by
      refine ⟨List.nodup_nil, ?_⟩
      cases c <;> first | trivial | exact hpoll _ rfl
    have hcall : Object.call t c = (do if ← lock t .object (.begin c) then begin t c) := by
      cases c <;> first | rfl | exact absurd rfl (hpoll _)
    rw [hcall]
    refine wp_bind.mpr (wp_mono (hmid.lock rfl rfl hformed False.elim hplain) ?_)
    intro got s₁ hlocked
    cases got with
    | false => exact hlocked
    | true =>
      obtain ⟨h₁, ⟨lk, rfl⟩, hword⟩ := hlocked
      refine Held.begin h₁ rfl ?_ hpoll
      simp [State.begins, hword, Label.tid, ht]

/-- What a step does. -/
theorem Good.program (h : Good s) (l : Label T) :
    Runs (program s l) (fun _ s' => Slice s l.tid (mayBounce s l) s') { s with env := l.env } := by
  have henv := h.env l.env
  cases l with
  | call t c env =>
    refine wp_bind.mpr (wp_require.mpr ⟨fun hsupported => ?_, fun _ => nofun⟩)
    split
    case h_1 ht =>
      exact wp_mono (henv.call ht hsupported) fun _ _ h' => Slice.of_env h'
    case h_2 => exact fun hstop => Stop.noConfusion hstop
  | resume t env =>
    have hformed := h.formed t
    simp only [Object.program]
    split
    case h_1 => exact fun hstop => Stop.noConfusion hstop
    case h_2 lk k ht =>
      rw [ht] at hformed
      have hslice : Stops { s with env := env } t (mayBounce { s with env := env }
          (.resume t env)) (do if ← Object.relock t lk then acquired t k) { s with env := env } := by
        cases lk with
        | object => exact henv.resume ht
        | blocking d =>
          cases k with
          | bounced c =>
            have hd : c.dir = d := hformed.2
            subst hd
            exact henv.bounced ht
          | _ => exact hformed.2.elim
      exact wp_mono hslice fun _ _ h' => Slice.of_env h'
    case h_3 w ht =>
      exact wp_mono (henv.answered ht) fun _ _ h' => Slice.of_env h'

theorem Good.slice (h : Good s) (hs : next s l = some s') :
    Slice s l.tid (mayBounce s l) s' :=
  state_of_wp (h.program l) hs

/-! ## Runs -/

/-- A blocking write begins while a thread flushes the write half in order to
close it. -/
def Intrudes (s : State T) (l : Label T) : Prop :=
  (∃ u, (s.thread u).Flushes) ∧ BeginsWrite s l

/-- What holds in runs without such a write. -/
structure Safe (s : State T) : Prop where
  good : Good s
  clean : ∀ z ∈ s.zeroed, z.Clean
  flushed : ∀ u, (s.thread u).Flushes → s.waiters .write = 0

theorem good_initial (kind : Kind) (blocking append : Bool) (timeout : Dir → Nat) :
    Good (State.initial kind blocking append timeout : State T) := by
  have hrole : Phase.idle.role = Role.away := by
    rw [role_idle]
    ext l
    · cases l <;> simp [role, Role.away]
    · rfl
    · rfl
  have hroles : (State.initial kind blocking append timeout : State T).roles = fun _ => .away :=
    funext fun _ => hrole
  have hblocked : (State.initial kind blocking append timeout : State T).view.blocked =
      fun _ => false := by
    funext d
    cases kind <;> rfl
  refine ⟨⟨?_, fun d => ?_, ?_, ?_, ?_⟩, fun _ => ⟨List.nodup_nil, trivial⟩, ?_⟩
  · rw [hroles]
    have := Halves.inv_initial (T := T)
    rwa [← hblocked] at this
  · rw [hroles]
    exact (Count.count_eq_zero_iff.mpr (by simp [Role.away])).symm
  · simp [hroles, Role.away]
  · simp [hroles, Role.away]
  · exact fun d _ => ⟨congrFun hblocked d, rfl⟩
  · rintro rfl
    exact ⟨rfl, fun _ => rfl, fun _ => trivial⟩

theorem safe_initial (kind : Kind) (blocking append : Bool) (timeout : Dir → Nat) :
    Safe (State.initial kind blocking append timeout : State T) where
  good := good_initial kind blocking append timeout
  clean := by simp [State.initial]
  flushed := fun _ _ => rfl

theorem Safe.next (h : Safe s) (hok : ¬ Intrudes s l) (hs : next s l = some s') : Safe s' := by
  have hslice := h.good.slice hs
  have hclean : ∀ z ∈ s'.zeroed, z.Clean := by
    obtain ⟨new, hnew, hz⟩ := hslice.log
    rw [hnew]
    intro z hmem
    rcases List.mem_append.mp hmem with hmem | hmem
    · rcases hz z hmem with hc | ⟨hflush, _, _, hpos⟩
      · exact hc
      · have := h.flushed _ hflush
        omega
    · exact h.clean z hmem
  refine ⟨hslice.good hclean, hclean, fun u hu => ?_⟩
  by_contra hw
  have hflush : ∃ v, (s.thread v).Flushes := by
    by_cases hne : u = l.tid
    · subst hne
      exact ⟨_, (hslice.flush hu).resolve_right hw⟩
    · exact ⟨u, hslice.others u hne ▸ hu⟩
  obtain ⟨v, hv⟩ := hflush
  refine hok ⟨⟨v, hv⟩, hslice.waiters .write ?_ rfl⟩
  have := h.flushed v hv
  omega

/-- **Each time an I/O state is zeroed, its blocking lock is free, nobody is
counted as waiting, and no other thread is in I/O on it**, in every run of
any number of threads in which no blocking write begins while another thread
flushes the write half in order to close it. -/
theorem zeroed_unused (kind : Kind) (blocking append : Bool) (timeout : Dir → Nat)
    (h : Steps.Reaches next (fun s l => ¬ Intrudes s l)
      (State.initial kind blocking append timeout : State T) s) :
    ∀ z ∈ s.zeroed, z.word = 0 ∧ z.waiters = 0 ∧ z.users = 0 := by
  have hsafe := h.invariant (safe_initial kind blocking append timeout)
    fun _ _ _ hsafe hok hs => hsafe.next hok hs
  exact hsafe.clean

/-- Two threads, for examples. -/
abbrev twoThreads : Threads := ⟨2, by decide⟩

/-- The start of a run: a nonblocking write is buffered, and a `shutdown` of
the write half has to wait for it. -/
def flushing : List (Label twoThreads) :=
  let env : Env := ⟨[], none, .ok 0, none⟩
  [.call 0 (.io (.write [1]) true) env,
   .resume 0 { env with script := [.blocked, .cancel .cancelled, .ready 0 false, .blocked,
    .cancel .cancelled, .alloc true, .blocked] },
   .call 0 (.shutdown .shutWr) env]

/-- The flush ends. -/
def flushed : Label twoThreads := .resume 0 ⟨[.progress 1, .event false], none, .ok 0, none⟩

/-- No writer begins, and the object is a socket. -/
def readsOnly (s : State twoThreads) (l : Label twoThreads) : Bool :=
  match s.kind, s.begins l with
  | .tcp, some (.io (.write _) false) => false
  | .tcp, _ => true
  | .file, _ => false

/-- A `read` is blocked meanwhile, and is in nobody's way. -/
theorem zeroed_unused_reading :
    ∃ s : State twoThreads, Steps.Reaches next (fun s l => ¬ Intrudes s l)
      (State.initial .tcp true false fun _ => 0) s ∧
      s.zeroed.map Zeroed.dir = [.write] ∧
      ∀ z ∈ s.zeroed, z.word = 0 ∧ z.waiters = 0 ∧ z.users = 0 := by
  have htest : ∀ s l, readsOnly s l = true → ¬ Intrudes s l := by
    rintro s l htest ⟨-, buffer, dontwait, hbegins, htcp⟩
    cases hkind : s.kind with
    | tcp =>
      rw [(htcp hkind).2] at hbegins
      simp [readsOnly, hkind, hbegins] at htest
    | file => simp [readsOnly, hkind] at htest
  have hrun : ((flushing ++ [.call 1 (.io (.read 5) false) ⟨[.blocked], none, .ok 0, none⟩,
      flushed]).foldlM (fun s l => if readsOnly s l then next s l else none)
        (State.initial .tcp true false fun _ => 0)).map (fun s => s.zeroed.map Zeroed.dir) =
      some [.write] := by decide +kernel
  obtain ⟨s, hs, hobs⟩ := Option.map_eq_some_iff.mp hrun
  have hreach := Steps.reaches_of_foldlM_test htest hs
  exact ⟨s, hreach, hobs, zeroed_unused .tcp true false (fun _ => 0) hreach⟩

/-- **Flag and counter tell what the threads do**, in every such run: a half is
marked exactly while a thread waits at its stream with the blocking lock, and
`waiters` is the number of threads that queue there. -/
theorem waiters_counted (kind : Kind) (blocking append : Bool) (timeout : Dir → Nat)
    (h : Steps.Reaches next (fun s l => ¬ Intrudes s l)
      (State.initial kind blocking append timeout : State T) s) (d : Dir) :
    (s.view.blocked d = true ↔ ∃! u, (s.roles u).at_ (.blocking d) = .holding) ∧
    s.waiters d = bouncers d s.roles := by
  have hinv := (h.invariant (safe_initial kind blocking append timeout)
    fun _ _ _ hsafe hok hs => hsafe.next hok hs).good.inv
  refine ⟨(hinv.halves.blocked d).trans ⟨?_, ExistsUnique.exists⟩, hinv.waiters d⟩
  rintro ⟨t, ht⟩
  exact ⟨t, ht, fun u hu => (hinv.halves.locks (.blocking d)).unique u t hu ht⟩

theorem waiters_counted_read :
    ∃ s : State twoThreads, ∃! u, (s.roles u).at_ (.blocking .read) = .holding := by
  have hrun : (next (State.initial .tcp true false fun _ => 0 : State twoThreads)
      (.call 0 (.io (.read 5) false) ⟨[.blocked], none, .ok 0, none⟩)).map
        (fun s => s.view.blocked .read) = some true := by decide +kernel
  obtain ⟨s, hs, hb⟩ := Option.map_eq_some_iff.mp hrun
  refine ⟨s, (waiters_counted .tcp true false _ (Steps.Reaches.refl.snoc ?_ hs) .read).1.mp hb⟩
  rintro ⟨⟨u, hu⟩, -⟩
  cases hu

/-- A blocking write begins while the `shutdown` flushes: it bounces on the
state that is then zeroed. -/
theorem zeroed_while_bouncing :
    ∃ s : State twoThreads, Steps.Reaches next (fun _ _ => True)
      (State.initial .tcp true false fun _ => 0) s ∧
      s.zeroed = [⟨.write, 1, 1, 1⟩] ∧
      ¬ ∀ z ∈ s.zeroed, z.word = 0 ∧ z.waiters = 0 ∧ z.users = 0 := by
  have hrun : ((flushing ++ [.call 1 (.io (.write [2]) false) ⟨[], none, .ok 0, none⟩,
      flushed]).foldlM next (State.initial .tcp true false fun _ => 0)).map State.zeroed =
      some [⟨.write, 1, 1, 1⟩] := by decide +kernel
  obtain ⟨s, hs, hobs⟩ := Option.map_eq_some_iff.mp hrun
  exact ⟨s, Steps.reaches_of_foldlM hs, hobs, by simp [hobs]⟩

end WasiLibc.Object

import WasiLibc.Udp.Polling
import WasiLibc.Lib.Steps

/-!
# WasiLibc.Udp.Correct

The invariant in all runs of a UDP socket, and what follows for its blocking
locks: no `connect` closes the streams while a thread is at one of them, a
lock that nobody is at is free, and a thread that has bounced leaves.

All this is for runs in which no `connect` meets a lock that is free but still
waited for.  A thread that has been woken and has not run yet is counted in
the lock, while the flag that `connect` looks at is clear already.
-/

namespace WasiLibc.Udp

open Futex Wp

variable {T : Threads} {ok : Fault → Prop} {s₀ s s' : State T} {t : Tid T} {l : Label T}

/-! ## Calls -/

/-- The call that begins in a step, under the socket's lock. -/
def State.begins (s : State T) (l : Label T) : Option Call :=
  if 0 ≤ (s.lock .object).word then
    match l, s.thread l.tid with
    | .call _ c _, .idle => some c
    | .resume _ _, .locking .object (.begin _ c) => some c
    | _, _ => none
  else none

/-- A `connect` begins that closes the streams while a thread is at a blocking
lock. -/
def Tears (s : State T) (l : Label T) : Prop :=
  ∃ b, s.begins l = some (.connect (.ok b)) ∧ ¬ s.CloseSafe

theorem Held.begin {c : Call} {id : Nat} (h : Held s₀ t s) (hpoll : ∀ fds, c ≠ .poll fds)
    (hsafe : ∀ b, c = .connect (.ok b) → s.CloseSafe) : Stops ok s₀ t (begin t id c) s := by
  cases c with
  | sendto a => exact h.sendto
  | recvfrom a => exact h.recvfrom
  | bind addr =>
    cases addr with
    | error e => exact h.leave _ _
    | ok _ =>
      refine wp_bind.mpr (h.doBind fun r s₁ h₁ _ => ?_)
      cases r <;> exact Held.leave h₁ _ _
  | connect remote => exact h.connect fun b hb => hsafe b (by rw [hb])
  | setBlocking blocking =>
    have h₁ : Held s₀ t { s with blocking := blocking } := h.setData rfl h.data rfl
    exact wp_bind.mpr (wp_modify.mpr (Held.leave h₁ _ _))
  | setTimeout d timeout =>
    have h₁ : Held s₀ t { s with timeout := Function.update s.timeout d timeout } :=
      h.setData rfl h.data rfl
    exact wp_bind.mpr (wp_modify.mpr (Held.leave h₁ _ _))
  | poll fds => exact absurd rfl (hpoll fds)

/-! ## Steps -/

variable {k : Cont} {w : Wait} {u : Tid T} {d : Dir}

/-- The thread has waited for the socket's lock and has it. -/
theorem Mid.acquired (h : Mid s₀ t (role .holding k.owned none) s)
    (hformed : (Phase.locking .object k).Formed)
    (hsafe : ∀ id b, k = .begin id (.connect (.ok b)) → s.CloseSafe) :
    Stops ok s₀ t (acquired t k) s := by
  cases k with
  | begin id c =>
    refine Held.begin h ?_ fun b hb => hsafe id b (by rw [hb])
    rintro fds rfl
    exact hformed
  | bounced c => exact hformed.elim
  | retry c => exact Held.transfer h
  | recvEnd c event => exact h.recvEnded
  | sendEnd c own event => exact h.sendEnded
  | register id todo regs => exact h.pollResumed hformed.1 hformed.2
  | ready id event regs => exact h.pollReady hformed
  | cleanup id d regs result =>
    obtain ⟨hd, hdup⟩ := List.nodup_cons.mp hformed
    refine wp_bind.mpr (wp_mono (h.pollCancelled hd) ?_)
    intro _ s₁ h₁
    exact Mid.pollCleanup _ regs s₁ h₁ hdup

/-- A thread that waits for the host and holds the socket's lock. -/
theorem Good.held (h : Good s) (ht : s.thread t = .waiting w)
    (hholds : w.holds = true) (howned : w.owned = []) : Held s t s := by
  have hmid := h.mid t
  have hrole : (Phase.waiting w).role = { role .holding [] none with clear := fun _ => w.closes } := by
    ext l
    · cases l <;> simp [Phase.role, role, hholds, howned]
    · rfl
    · rfl
  rw [State.roles, ht, hrole] at hmid
  exact hmid.act (hmid.inv.setClear (c := fun _ => false) (by simp)) (fun _ => id) rfl

/-- Nobody is at a blocking lock while a thread closes the streams. -/
theorem Good.alone (h : Good s) (ht : s.thread t = .waiting w)
    (hcloses : w.closes = true) : Alone s t := by
  have hempty : Empty s.roles := (h.inv.clear t .read (by rw [State.roles, ht]; exact hcloses)).2
  rw [← Function.update_eq_self t s.roles] at hempty
  exact empty_update hempty fun d => by simp

/-- A thread that waits for the host in blocking operations. -/
theorem Good.blocking (h : Good s) (ht : s.thread t = .waiting w)
    (hholds : w.holds = false) (hcloses : w.closes = false) :
    Mid s t (role .outside w.owned none) s := by
  have hmid := h.mid t
  rw [State.roles, ht, role_waiting hcloses, hholds] at hmid
  exact hmid

/-- The wait for the host is over, and the socket's lock is needed. -/
theorem Mid.ended {owned : List Dir} (h : Mid s₀ t (role .outside owned none) s)
    (howned : k.owned = owned) (hformed : (Phase.locking .object k).Formed)
    (hplain : ∀ id c, k ≠ .begin id c) :
    Stops ok s₀ t (do if ← Udp.lock t .object k then Udp.acquired t k) s := by
  refine wp_bind.mpr (wp_mono (h.lock howned hformed) ?_)
  intro got s₁ hlocked
  cases got with
  | false => exact hlocked
  | true =>
    obtain ⟨h₁, _, _⟩ := hlocked
    rw [← howned] at h₁
    exact h₁.acquired hformed fun id b hk => absurd hk (hplain id _)

theorem Good.answered (h : Good s) (ht : s.thread t = .waiting w) (hok : ok .host) :
    Stops ok s t (answered t w) s := by
  have hrelies := h.relies t
  rw [ht] at hrelies
  cases w with
  | recv c timeout =>
    have hmid : Mid s t (role .outside [.read] none) s := h.blocking ht rfl rfl
    simp only [Udp.answered, awaited, wp_bind, wp_get, wp_require, wp_pure]
    refine ⟨fun _ => hmid.takeRecv s.env.recvEvent fun s₁ h₁ _ => ?_, fun _ => hok⟩
    exact wp_bind.mp (h₁.ended (k := .recvEnd c s.env.recvEvent) rfl
      (List.nodup_singleton _) (by simp))
  | send c own timeout =>
    have hmid : Mid s t (role .outside [.write] none) s := h.blocking ht rfl rfl
    simp only [Udp.answered, awaited, wp_bind, wp_get, wp_require, wp_pure]
    refine ⟨fun _ => ?_, fun _ => hok⟩
    exact wp_bind.mp (hmid.ended (k := .sendEnd c own s.env.sendEvent) rfl
      (List.nodup_singleton _) (by simp))
  | polling id regs =>
    have hformed := h.formed t
    rw [ht] at hformed
    exact (h.blocking ht rfl rfl).polling hformed hok
  | cancelSend c subtask =>
    obtain ⟨hk, hstreaming, hsubtask, hready, hcopy⟩ := hrelies
    have hb : s.streams.blocking .write = false := by
      by_contra hb
      have := h.data.blockedSend (by simpa using hb)
      simp [hsubtask] at this
    exact Held.sendCancelled (h.held ht rfl rfl) ⟨hstreaming, hb, hsubtask, hready, hcopy⟩ hk
  | cancelRecv id remote => exact Held.recvCancelled (h.held ht rfl rfl) (h.alone ht rfl)
  | closeSend id remote =>
    exact Held.sendClosed (h.held ht rfl rfl) (h.alone ht rfl) hrelies hok

/-! ### Closing -/

/-- Nobody is in a call, and the data changes. -/
theorem Good.idle (h : Good s) (hidle : ∀ u, (s.thread u).isIdle = true)
    (hdata : Data s'.streams s'.sends) (hclean : ∀ z ∈ s'.torn, z.Clean)
    (hhalves : s'.halves = s.halves) (htag : s'.tag = s.tag) (hthread : s'.thread = s.thread) :
    Good s' where
  inv := by
    have hroles : s'.roles = s.roles := funext fun u => by rw [State.roles, State.roles, hthread]
    rw [hhalves, htag, hroles]
    exact h.inv
  data := hdata
  formed := hthread ▸ h.formed
  relies := fun u => by
    have := hidle u
    rw [hthread]
    cases hu : s.thread u with
    | idle => trivial
    | locking l k => simp [hu, Phase.isIdle] at this
    | waiting w => simp [hu, Phase.isIdle] at this
  clean := hclean

theorem empty_of_idle (hidle : ∀ u, (s.thread u).isIdle = true) : Empty s.roles := by
  intro u d
  have := hidle u
  cases hu : s.thread u with
  | idle => simp [State.roles, hu, Phase.role]
  | locking l k => simp [hu, Phase.isIdle] at this
  | waiting w => simp [hu, Phase.isIdle] at this

theorem Good.free (h : Good s) (hidle : ∀ u, (s.thread u).isIdle = true) (hok : ok .host) :
    Runs ok (free t) (fun _ s' => Good s') s := by
  have hempty := empty_of_idle hidle
  have hb : s.streams.blocking .write = false := by
    by_contra hb
    obtain ⟨u, hu⟩ := (h.inv.halves.blocked .write).mp (by simpa [State.halves] using hb)
    rw [hempty u .write] at hu
    cases hu
  have hclean : ∀ z ∈ ⟨(s.lock (.blocking .read)).word, (s.lock (.blocking .write)).word,
      s.inside t⟩ :: s.torn, Torn.Clean z := by
    intro z hz
    cases hz with
    | head =>
      refine ⟨h.inv.empty_iff.mp hempty .read, h.inv.empty_iff.mp hempty .write, ?_⟩
      simp [State.inside, show ∀ u d, (s.roles u).at_ (.blocking d) = .outside from hempty]
    | tail _ hmem => exact h.clean z hmem
  simp only [Udp.free, tear, getStreams, wp_bind, wp_get, wp_modify, wp_ite, wp_pure]
  split
  case isTrue =>
    split
    case isTrue hsubtask =>
      obtain ⟨k, hk⟩ := Option.isSome_iff_exists.mp hsubtask
      obtain ⟨call, data, hsent⟩ := h.data.pending k hk
      split
      case h_1 => exact hok
      case h_2 r _ =>
        simp only [Udp.sendReturned, getStreams, wp_bind, wp_get, wp_pure, hk]
        exact Held.hostEnd hsent (h.idle hidle (h.data.idle rfl hb (fun _ => rfl) rfl) hclean
          rfl rfl rfl)
    case isFalse => exact h.idle hidle h.data hclean rfl rfl rfl
  case isFalse => exact h.idle hidle h.data h.clean rfl rfl rfl

/-! ### All steps -/

/-- The thread is given what the host does in the step, and the call is
listed. -/
theorem Good.given (h : Good s) (env : Env) (calls : List Call) :
    Good { s with env := env, calls := calls } :=
  ⟨h.inv, h.data, h.formed, h.relies, h.clean⟩

/-- Taking the socket's lock changes nothing else that a `connect` looks
at. -/
theorem State.CloseSafe.locked {lk : Lock T} (h : s.CloseSafe) :
    (s.setLock .object lk).CloseSafe :=
  fun hs hr hw d => h hs hr hw d

theorem Good.resume (h : Good s) (ht : s.thread t = .locking .object k)
    (hok : ok .host)
    (hsafe : ∀ id b, k = .begin id (.connect (.ok b)) → 0 ≤ (s.lock .object).word → s.CloseSafe) :
    Stops ok s t (do if ← Udp.relock t .object then Udp.acquired t k) s := by
  refine wp_bind.mpr (wp_mono (h.relock ht hok) ?_)
  intro got s₁ hlocked
  cases got with
  | false => exact hlocked
  | true =>
    obtain ⟨h₁, ⟨lk, rfl⟩, hword⟩ := hlocked
    exact h₁.acquired (ht ▸ h.formed t) fun id b hk => (hsafe id b hk hword).locked

theorem Good.call {c : Call} {id : Nat} (h : Good s) (ht : s.thread t = .idle)
    (hsafe : ∀ b, c = .connect (.ok b) → 0 ≤ (s.lock .object).word → s.CloseSafe) :
    Stops ok s t (Udp.call t id c) s := by
  have hmid : Mid s t (role .outside [] none) s := by
    have := h.mid t
    rwa [State.roles, ht, role_idle] at this
  by_cases hpoll : ∃ fds, c = .poll fds
  · obtain ⟨fds, rfl⟩ := hpoll
    exact Mid.pollLoop fds [] s hmid List.nodup_nil
  · have hpoll : ∀ fds, c ≠ .poll fds := fun fds hc => hpoll ⟨fds, hc⟩
    have hformed : (Phase.locking .object (.begin id c)).Formed := by
      cases c <;> first | exact List.nodup_nil | exact hpoll _ rfl
    have hcall : Udp.call t id c =
        (do if ← Udp.lock t .object (.begin id c) then Udp.begin t id c) := by
      cases c <;> first | rfl | exact absurd rfl (hpoll _)
    rw [hcall]
    refine wp_bind.mpr (wp_mono (hmid.lock rfl hformed) ?_)
    intro got s₁ hlocked
    cases got with
    | false => exact hlocked
    | true =>
      obtain ⟨h₁, ⟨lk, rfl⟩, hword⟩ := hlocked
      exact Held.begin h₁ hpoll fun b hb => (hsafe b hb hword).locked

/-- What a step does. -/
theorem Good.program (h : Good s) (hok : ¬ Tears s l) :
    Runs (· = .host) (program s l) (fun _ s' => Good s') { s with env := l.env } := by
  have hsafe : ∀ b, s.begins l = some (.connect (.ok b)) → s.CloseSafe := fun b hb => by
    by_contra hn
    exact hok ⟨b, hb, hn⟩
  cases l with
  | call t c env =>
    refine wp_bind.mpr (wp_require.mpr ⟨fun hcan => ?_, fun _ => rfl⟩)
    have ht : s.thread t = .idle := by
      have := hcan.2
      cases ht : s.thread t <;> simp [ht, Phase.isIdle] at this
      rfl
    refine wp_bind.mpr (wp_modify.mpr ?_)
    refine wp_mono ((h.given env (s.calls ++ [c])).call ht ?_) fun _ _ h' => h'.good
    rintro b rfl hword
    exact hsafe b (by simp_all [State.begins, Label.tid])
  | resume t env =>
    have hgiven := h.given env s.calls
    have hformed := h.formed t
    simp only [Udp.program]
    split
    case h_1 => rfl
    case h_2 lk k ht =>
      rw [ht] at hformed
      cases lk with
      | object =>
        refine wp_mono (hgiven.resume ht rfl ?_) fun _ _ h' => h'.good
        rintro id b rfl hword
        exact hsafe b (by simp_all [State.begins, Label.tid])
      | blocking d =>
        cases k with
        | bounced c =>
          have hd : c.dir = d := hformed
          subst hd
          exact wp_mono (hgiven.bounced ht fun _ => rfl) fun _ _ h' => h'.good
        | _ => exact hformed.elim
    case h_3 w ht => exact wp_mono (hgiven.answered ht rfl) fun _ _ h' => h'.good
  | close t env =>
    refine wp_bind.mpr (wp_require.mpr ⟨fun hcan => ?_, fun _ => rfl⟩)
    exact (h.given env s.calls).free hcan.2 rfl

theorem Good.next (h : Good s) (hok : ¬ Tears s l) (hs : next s l = some s') : Good s' :=
  state_of_wp (h.program hok) hs

theorem good_initial (blocking : Bool) : Good (State.initial blocking : State T) := by
  have hroles : (State.initial blocking : State T).roles = fun _ => .away := by
    funext u
    ext l
    · cases l <;> rfl
    · rfl
    · rfl
  refine ⟨⟨?_, ?_, ?_⟩, data_zero _, fun _ => trivial, fun _ => trivial, by simp [State.initial]⟩
  · rw [hroles]
    exact Halves.inv_initial
  · simp [hroles, Role.away]
  · simp [hroles, Role.away, Empty]

theorem good_of_reaches {blocking : Bool}
    (h : Steps.Reaches next (fun s l => ¬ Tears s l) (State.initial blocking : State T) s) :
    Good s :=
  h.invariant (good_initial blocking) fun _ _ _ hgood hok hs => hgood.next hok hs

/-! ## Leaving a blocking lock -/

/-- When a thread leaves a lock, fewer threads wait for it. -/
theorem waiting_lt {i : LockId} (hothers : ∀ v, v ≠ u → s'.thread v = s.thread v)
    (hat : (s.roles u).at_ i = .waiting) (hleft : (s'.roles u).at_ i ≠ .waiting) :
    Lock.waiting (standings s'.roles i) < Lock.waiting (standings s.roles i) := by
  have hsame : standings s'.roles i =
      Function.update (standings s.roles i) u ((s'.roles u).at_ i) := by
    funext v
    by_cases hv : v = u
    · subst hv; simp [standings]
    · simp [standings, State.roles, hv, hothers v hv]
  have hcount := Lock.waiting_update (standings s.roles i) u ((s'.roles u).at_ i)
  rw [← hsame, if_pos (show standings s.roles i u = .waiting from hat), if_neg hleft] at hcount
  omega

theorem three_lt : 3 < 2 ^ 28 := by decide

/-- Three threads, for examples. -/
abbrev threeThreads : Threads := ⟨3, three_lt⟩

instance : NeZero threeThreads.count := ⟨by decide⟩

/-- What the host does by default in the examples. -/
def quiet : Env :=
  ⟨.ok (), .ok (), none, none, none, none, none, none, true, fun _ => true, none⟩

/-- The start of a run: a thread waits in `recvfrom`, a second one bounces, and
then the first one is done. -/
def receiving : List (Label threeThreads) :=
  let recv : Call := .recvfrom ⟨4, false, false, false, .ok ()⟩
  [.call 0 (.bind (.ok ())) quiet,
   .call 0 recv quiet,
   .call 1 recv quiet,
   .resume 0 { quiet with recvEvent := some (.ok [1]) }]

end WasiLibc.Udp

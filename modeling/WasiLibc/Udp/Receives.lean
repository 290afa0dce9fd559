import WasiLibc.Udp.Receipts
import WasiLibc.Udp.Sends

/-!
# WasiLibc.Udp.Receives

Every result of a receive on a UDP socket is returned by exactly one
`recvfrom`, in the order in which the host completes them, in all runs in
which the streams are not closed.

`Turn s₀ t i x s` says that thread `t` runs call `i` and has got the event `x`
of the receive, which it has not put into the streams yet; at a switch point
everything is `Accounted`.
-/

namespace WasiLibc.Udp

open Function Futex Wp

variable {T : Threads} {α β : Type} {s₀ s s' : State T} {t : Tid T} {i : Nat}
  {x : Option RecvResult}

/-! ## The calls of threads -/

/-- The call is the `recvfrom`. -/
def Recv.Suits (calls : List Call) (c : Recv) : Prop :=
  ∃ a, calls[c.id]? = some (.recvfrom a) ∧ a.length = c.length ∧ a.trunc = c.trunc

/-- The call is not a `recvfrom`. -/
def NoRecv (calls : List Call) (id : Nat) : Prop :=
  ∃ c, calls[id]? = some c ∧ ∀ a, c ≠ .recvfrom a

def Io.Suits (calls : List Call) : Io → Prop
  | .recv c => c.Suits calls
  | .send c => NoRecv calls c.id

/-- What the thread has to do is for its call. -/
def Cont.Suits (calls : List Call) : Cont → Prop
  | .begin id c => calls[id]? = some c
  | .bounced c => c.Suits calls
  | .retry c => c.Suits calls
  | .recvEnd c _ => c.Suits calls
  | .sendEnd c _ _ => NoRecv calls c.id
  | .register id _ _ => NoRecv calls id
  | .ready id _ _ => NoRecv calls id
  | .cleanup id _ _ _ => NoRecv calls id

/-- Nobody closes the streams. -/
def Wait.Suits (calls : List Call) : Wait → Prop
  | .recv c _ => c.Suits calls
  | .send c _ _ => NoRecv calls c.id
  | .polling id _ => NoRecv calls id
  | .cancelSend c _ => NoRecv calls c.id
  | .cancelRecv _ _ => False
  | .closeSend _ _ => False

def Phase.Suits (calls : List Call) : Phase → Prop
  | .idle => True
  | .locking _ k => k.Suits calls
  | .waiting w => w.Suits calls

/-- The event of the receive that the thread has got, and has not put into the
streams yet. -/
def Cont.taken : Cont → Option RecvResult
  | .recvEnd _ event => event
  | .ready _ event _ => event.received
  | _ => none

def Phase.taken : Phase → Option RecvResult
  | .locking _ k => k.taken
  | _ => none

/-- The call of the thread. -/
def Phase.call (p : Phase) : Option Nat := p.claim.map Prod.fst

def State.taken (s : State T) (u : Tid T) : Option RecvResult := (s.thread u).taken

def State.callOf (s : State T) (u : Tid T) : Option Nat := (s.thread u).call

section

variable {calls calls' : List Call}

theorem NoRecv.mono {id : Nat} (h : NoRecv calls id)
    (hcalls : ∀ (j : Nat) (c : Call), calls[j]? = some c → calls'[j]? = some c) :
    NoRecv calls' id :=
  let ⟨c, hc, hne⟩ := h
  ⟨c, hcalls _ _ hc, hne⟩

theorem Recv.Suits.mono {c : Recv} (h : c.Suits calls)
    (hcalls : ∀ (j : Nat) (c : Call), calls[j]? = some c → calls'[j]? = some c) :
    c.Suits calls' :=
  let ⟨a, ha, hlength, htrunc⟩ := h
  ⟨a, hcalls _ _ ha, hlength, htrunc⟩

theorem Io.Suits.mono {c : Io} (h : c.Suits calls)
    (hcalls : ∀ (j : Nat) (c : Call), calls[j]? = some c → calls'[j]? = some c) :
    c.Suits calls' := by
  cases c with
  | recv c => exact Recv.Suits.mono h hcalls
  | send c => exact NoRecv.mono h hcalls

/-- Calls are only added. -/
theorem Phase.Suits.mono {p : Phase} (h : p.Suits calls)
    (hcalls : ∀ (j : Nat) (c : Call), calls[j]? = some c → calls'[j]? = some c) :
    p.Suits calls' := by
  cases p with
  | idle => trivial
  | locking l k =>
    cases k with
    | begin id c => exact hcalls id c h
    | bounced c => exact Io.Suits.mono h hcalls
    | retry c => exact Io.Suits.mono h hcalls
    | recvEnd c event => exact Recv.Suits.mono h hcalls
    | _ => exact NoRecv.mono h hcalls
  | waiting w =>
    cases w with
    | recv c timeout => exact Recv.Suits.mono h hcalls
    | cancelRecv id remote => exact h.elim
    | closeSend id remote => exact h.elim
    | _ => exact NoRecv.mono h hcalls

theorem NoRecv.modest {r : Except Errno Nat} (h : NoRecv calls i) : Modest calls i r := by
  obtain ⟨c, hc, hne⟩ := h
  intro a n ha
  rw [hc, Option.some.injEq] at ha
  exact absurd ha (hne a)

theorem modest_error (e : Errno) : Modest calls i (.error e) := fun _ _ _ => nofun

end

/-! ## The invariant -/

/-- There is nothing to receive while there are no streams. -/
def State.Absent (s : State T) : Prop :=
  s.tag.streaming = false → s.streams.recvReady = false ∧ s.streams.recvSubtask = false

/-- The record of the receives at switch points. -/
structure Accounted (s : State T) : Prop where
  account : Account s.streams s.receipts s.taken
  deliveries : Deliveries s.calls s.returned s.receipts s.callOf
  suits : ∀ u, (s.thread u).Suits s.calls
  absent : s.Absent

/-- Thread `t` runs call `i` and has got the event `x`. -/
structure Turn (s₀ : State T) (t : Tid T) (i : Nat) (x : Option RecvResult) (s : State T) :
    Prop where
  account : Account s.streams s.receipts (update s₀.taken t x)
  deliveries : Deliveries s.calls s.returned s.receipts (update s₀.callOf t (some i))
  calls : s.calls = s₀.calls
  thread : s.thread = s₀.thread
  suits : ∀ u, u ≠ t → (s₀.thread u).Suits s₀.calls
  absent : s.Absent

/-- No other thread has got an event. -/
def State.Unclaimed (s : State T) (t : Tid T) : Prop := ∀ u, u ≠ t → s.taken u = none

theorem State.Unclaimed.update (h : s₀.Unclaimed t) (u : Tid T) :
    update s₀.taken t none u = none := by
  rw [update_apply]
  split
  case isTrue => rfl
  case isFalse hu => exact h u hu

/-- Without a receive under way, nobody has got its event. -/
theorem Turn.unclaimed (h : Turn s₀ t i x s) (hsubtask : s.streams.recvSubtask = false) :
    s₀.Unclaimed t := by
  intro u hu
  by_contra htaken
  obtain ⟨r, hr⟩ := Option.ne_none_iff_exists'.mp htaken
  have := (h.account.held u r (by rw [update_of_ne hu, hr])).1
  rw [hsubtask] at this
  cases this

variable {p : Phase} {l : LockId} {d : Dir} {regs : List Dir} {k : Cont} {c : Recv} {a : RecvArgs}

/-- The thread stops. -/
theorem accounted_parked
    (haccount : Account s.streams s.receipts (update s₀.taken t p.taken))
    (hdeliveries : Deliveries s.calls s.returned s.receipts (update s₀.callOf t p.call))
    (hcalls : s.calls = s₀.calls) (hthread : s.thread = s₀.thread)
    (hothers : ∀ u, u ≠ t → (s₀.thread u).Suits s₀.calls) (hsuits : p.Suits s₀.calls)
    (habsent : s.Absent) : Accounted (s.parked t p) := by
  have htaken : (s.parked t p).taken = update s₀.taken t p.taken :=
    State.comp_parked Phase.taken hthread
  have hcall : (s.parked t p).callOf = update s₀.callOf t p.call :=
    State.comp_parked Phase.call hthread
  rw [← hcalls] at hothers hsuits
  exact ⟨htaken ▸ haccount, hcall ▸ hdeliveries,
    State.forall_parked (P := (·.Suits s.calls)) hthread hsuits hothers, habsent⟩

theorem Turn.park (h : Turn s₀ t i x s) (htaken : p.taken = x)
    (hcall : p.call = some i) (hsuits : p.Suits s₀.calls) : Accounted (s.parked t p) :=
  accounted_parked (htaken ▸ h.account) (hcall ▸ h.deliveries) h.calls h.thread h.suits hsuits
    h.absent

/-! ## Rules -/

/-- Nothing that the record is about changes. -/
abbrev Steady (s₀ : State T) (t : Tid T) (i : Nat) (x : Option RecvResult) (f : M T α) : Prop :=
  Keeps (fun _ => True) (Turn s₀ t i x) f

/-- Run to a switch point; a step that is not possible is no step. -/
abbrev Accounts (f : M T α) (s : State T) : Prop :=
  wp (fun _ => True) f (fun _ s' => Accounted s') s

abbrev Accounting (s₀ : State T) (t : Tid T) (i : Nat) (x : Option RecvResult) (f : M T α) : Prop :=
  Settles Accounted (Turn s₀ t i x) f

/-- The record does not see the difference. -/
theorem Turn.congr (h : Turn s₀ t i x s)
    (hstreams : s'.streams.recvReady = s.streams.recvReady ∧
      s'.streams.recvSubtask = s.streams.recvSubtask ∧
      s'.streams.recvResult = s.streams.recvResult)
    (hcalls : s'.calls = s.calls) (hreturned : s'.returned = s.returned)
    (hreceipts : s'.receipts = s.receipts) (hthread : s'.thread = s.thread)
    (htag : s'.tag.streaming = s.tag.streaming) : Turn s₀ t i x s' where
  account := by
    rw [hreceipts]
    exact h.account.congr hstreams.1 hstreams.2.1 hstreams.2.2
  deliveries := by
    rw [hcalls, hreturned, hreceipts]
    exact h.deliveries
  calls := hcalls.trans h.calls
  thread := hthread.trans h.thread
  suits := h.suits
  absent := by
    intro hs
    rw [hstreams.1, hstreams.2.1]
    exact h.absent (htag ▸ hs)

theorem steady_modify {f : State T → State T}
    (hf : ∀ s, ((f s).streams.recvReady = s.streams.recvReady ∧
      (f s).streams.recvSubtask = s.streams.recvSubtask ∧
      (f s).streams.recvResult = s.streams.recvResult) ∧ (f s).calls = s.calls ∧
      (f s).returned = s.returned ∧ (f s).receipts = s.receipts ∧ (f s).thread = s.thread ∧
      (f s).tag.streaming = s.tag.streaming) : Steady s₀ t i x (modify f) := by
  refine Keeps.modify fun s h => ?_
  obtain ⟨hstreams, hcalls, hreturned, hreceipts, hthread, htag⟩ := hf s
  exact h.congr hstreams hcalls hreturned hreceipts hthread htag

theorem steady_get : Steady s₀ t i x (get : M T (State T)) := fun _ h => h

theorem steady_require {c : Prop} [Decidable c] {e : Fault} :
    Steady s₀ t i x (require c e : M T PUnit) := .require trivial

theorem settles_park (htaken : p.taken = x) (hcall : p.call = some i)
    (hsuits : p.Suits s₀.calls) : Accounting s₀ t i x (park t p) :=
  fun _ h => h.park htaken hcall hsuits

theorem settles_finish {r : Except Errno Nat} (hr : Modest s₀.calls i r) :
    Accounting s₀ t i none (finish t i r) := by
  intro s h
  have hdeliveries := h.deliveries.finish (.inl ⟨rfl, h.calls ▸ hr⟩)
  have habsent : State.Absent { s with returned := update s.returned i (some r) } :=
    h.absent
  exact accounted_parked (p := .idle) h.account hdeliveries h.calls h.thread h.suits trivial
    habsent

/-! ## Programs that the record does not see -/

theorem steady_setLock {lk : Lock T} : Steady s₀ t i x (setLock l lk) :=
  steady_modify fun _ => ⟨⟨rfl, rfl, rfl⟩, rfl, rfl, rfl, rfl, rfl⟩

theorem steady_unlock : Steady s₀ t i x (unlock l : M T PUnit) :=
  steady_get.bind fun _ => steady_setLock

theorem steady_getStreams : Steady s₀ t i x (getStreams : M T Streams) :=
  steady_get.bind fun _ => .pure _

theorem steady_modifyStreams {f : Streams → Streams}
    (hf : ∀ st, (f st).recvReady = st.recvReady ∧ (f st).recvSubtask = st.recvSubtask ∧
      (f st).recvResult = st.recvResult) : Steady s₀ t i x (modifyStreams f : M T PUnit) :=
  steady_modify fun s => ⟨hf s.streams, rfl, rfl, rfl, rfl, rfl⟩

theorem steady_enterBlocking {u : Tid T} : Steady s₀ t i x (enterBlocking u d) := by
  refine steady_get.bind fun _ => steady_require.bind fun _ => steady_getStreams.bind fun _ =>
    steady_require.bind fun _ => Keeps.bind ?_ fun _ =>
      steady_get.bind fun _ => steady_setLock.bind fun _ => steady_require
  exact steady_modifyStreams fun _ => ⟨rfl, rfl, rfl⟩

theorem steady_exitBlocking : Steady s₀ t i x (exitBlocking d : M T PUnit) :=
  steady_get.bind fun _ => steady_require.bind fun _ => steady_unlock.bind fun _ =>
    steady_getStreams.bind fun _ => steady_require.bind fun _ =>
      steady_modifyStreams fun _ => ⟨rfl, rfl, rfl⟩

theorem steady_hostSend {c : Send} {answer : Option SendResult} :
    Steady s₀ t i x (hostSend c answer : M T Nat) := by
  refine steady_get.bind fun _ => Keeps.bind ?_ fun _ => .pure _
  exact steady_modify fun _ => ⟨⟨rfl, rfl, rfl⟩, rfl, rfl, rfl, rfl, rfl⟩

theorem steady_hostEnd {k : Nat} {fate : Fate} : Steady s₀ t i x (hostEnd k fate : M T PUnit) := by
  refine steady_get.bind fun _ => ?_
  split
  case h_1 => exact steady_modify fun _ => ⟨⟨rfl, rfl, rfl⟩, rfl, rfl, rfl, rfl, rfl⟩
  case h_2 => exact .throw trivial

theorem steady_sendReturned {r : SendResult} : Steady s₀ t i x (sendReturned r : M T PUnit) := by
  refine steady_getStreams.bind fun _ => ?_
  split
  case h_1 => exact .throw trivial
  case h_2 => exact steady_hostEnd.bind fun _ => steady_modifyStreams fun _ => ⟨rfl, rfl, rfl⟩

theorem steady_sendAnswered {r : SendResult} : Steady s₀ t i x (sendAnswered r : M T PUnit) :=
  steady_getStreams.bind fun _ => steady_require.bind fun _ => steady_require.bind fun _ =>
    steady_modifyStreams fun _ => ⟨rfl, rfl, rfl⟩

theorem steady_awaited {timeout : Nat} {event : Option α} :
    Steady s₀ t i x (awaited timeout event : M T (Option α)) :=
  steady_require.bind fun _ => .pure _

theorem steady_pollSend {u : Tid T} : Steady s₀ t i x (pollSend u regs) :=
  steady_getStreams.bind fun _ => .ite (fun _ => .pure _) fun _ => steady_getStreams.bind fun _ =>
    .ite (fun _ => steady_get.bind fun _ => .ite
      (fun _ => steady_enterBlocking.bind fun _ => .pure _) fun _ => .pure _) fun _ => .pure _

theorem steady_pollCancelled : Steady s₀ t i x (pollCancelled d : M T PUnit) :=
  steady_exitBlocking.bind fun _ => steady_unlock

/-- The socket is bound, which makes no streams. -/
theorem steady_setBound {a : α} (h : Turn s₀ t i x s) (htag : s.tag = .unbound) :
    wp (fun _ => True) (do modify fun s => { s with tag := .boundNostreams }; return a : M T α)
      (fun _ s' => Turn s₀ t i x s' ∧ s'.streams = s.streams ∧
        s'.tag.streaming = s.tag.streaming) s :=
  ⟨h.congr ⟨rfl, rfl, rfl⟩ rfl rfl rfl rfl (by rw [htag]; rfl), rfl, by rw [htag]; rfl⟩

theorem Turn.doBind (h : Turn s₀ t i x s) :
    wp (fun _ => True) doBind (fun _ s' => Turn s₀ t i x s' ∧ s'.streams = s.streams ∧
      s'.tag.streaming = s.tag.streaming) s := by
  refine wp_bind.mpr (wp_get.mpr (wp_ite.mpr ?_))
  split
  case isTrue => exact ⟨h, rfl, rfl⟩
  case isFalse htag =>
    refine wp_bind.mpr (wp_get.mpr ?_)
    split
    case h_1 => exact ⟨h, rfl, rfl⟩
    case h_2 => exact steady_setBound h (not_not.mp htag)

theorem Turn.needBound (h : Turn s₀ t i x s) :
    wp (fun _ => True) needBound (fun _ s' => Turn s₀ t i x s' ∧ s'.streams = s.streams ∧
      s'.tag.streaming = s.tag.streaming) s := by
  refine wp_bind.mpr (wp_get.mpr (wp_ite.mpr ?_))
  split
  case isTrue => exact h.doBind
  case isFalse => exact ⟨h, rfl, rfl⟩

/-! ## Streams -/

/-- Where there are no streams, nothing is lost when they are made. -/
theorem Turn.zero (h : Turn s₀ t i x s) (hs : s.tag.streaming = false)
    (hstreams : s'.streams = .zero) (hcalls : s'.calls = s.calls)
    (hreturned : s'.returned = s.returned) (hreceipts : s'.receipts = s.receipts)
    (hthread : s'.thread = s.thread) : Turn s₀ t i x s' := by
  obtain ⟨hready, hsubtask⟩ := h.absent hs
  have hx : ∀ u, update s₀.taken t x u = none := by
    intro u
    by_contra hu
    obtain ⟨r, hr⟩ := Option.ne_none_iff_exists'.mp hu
    have := (h.account.held u r hr).1
    rw [hsubtask] at this
    cases this
  obtain ⟨hdone, hcount⟩ := h.account.free hx
  have hparked : s.streams.parked = Streams.zero.parked := by
    rw [Streams.parked, hready]
    rfl
  refine ⟨⟨?_, fun u r hu => ?_, fun _ => ?_, h.account.one⟩, ?_, hcalls.trans h.calls,
    hthread.trans h.thread, h.suits, fun _ => ?_⟩
  · rw [hstreams]
    intros; contradiction
  · rw [hx u] at hu
    cases hu
  · rw [hstreams, hreceipts, ← hparked]
    exact ⟨hdone, by rw [hcount, hsubtask]; rfl⟩
  · rw [hcalls, hreturned, hreceipts]
    exact h.deliveries
  · rw [hstreams]
    exact ⟨rfl, rfl⟩

/-- The streams are made. -/
theorem Turn.createStreams {remote : Bool} (h : Turn s₀ t i x s) :
    wp (fun _ => True) (createStreams t remote) (fun r s' => Turn s₀ t i x s' ∧
      s₀.Unclaimed t ∧ (r.isOk = true → s'.tag.streaming = true)) s := by
  simp only [Udp.createStreams, zeroStreams, tear, wp_bind, wp_get, wp_require, wp_modify, wp_ite,
    wp_pure]
  refine ⟨fun htag => ?_, fun _ => trivial⟩
  have hs : s.tag.streaming = false := by rw [htag]; rfl
  have hfree := h.unclaimed (h.absent hs).2
  split
  case isTrue =>
    split
    case h_1 => exact ⟨h.zero hs rfl rfl rfl rfl rfl, hfree, by intros; contradiction⟩
    case h_2 => exact ⟨h.zero hs rfl rfl rfl rfl rfl, hfree, fun _ => rfl⟩
  case isFalse => exact ⟨h.zero hs rfl rfl rfl rfl rfl, hfree, fun _ => rfl⟩

theorem steady_createStreams {remote : Bool} : Steady s₀ t i x (createStreams t remote) :=
  fun _ h => wp_mono h.createStreams fun _ _ h' => h'.1

/-- No other thread has got an event while the flag is clear. -/
def State.Guarded (s₀ : State T) (t : Tid T) (st : Streams) : Prop :=
  st.blocking .read = false → s₀.Unclaimed t

theorem Turn.needStreams (h : Turn s₀ t i x s) (hg : s₀.Guarded t s.streams) :
    wp (fun _ => True) (needStreams t)
      (fun _ s' => Turn s₀ t i x s' ∧ s₀.Guarded t s'.streams) s := by
  refine wp_bind.mpr (wp_get.mpr (wp_ite.mpr ?_))
  split
  case isTrue => exact wp_mono h.createStreams fun _ _ h' => ⟨h'.1, fun _ => h'.2.1⟩
  case isFalse => exact ⟨h, hg⟩

/-- A bound socket has streams then. -/
theorem Turn.haveStreams (h : Turn s₀ t i x s) (htag : s.tag ≠ .unbound) :
    wp (fun _ => True) (Udp.needStreams t) (fun r s' => Turn s₀ t i x s' ∧
      (r.isOk = true → s'.tag.streaming = true)) s := by
  refine wp_bind.mpr (wp_get.mpr (wp_ite.mpr ?_))
  split
  case isTrue => exact wp_mono h.createStreams fun _ _ h' => ⟨h'.1, h'.2.2⟩
  case isFalse hstreams =>
    refine ⟨h, fun _ => ?_⟩
    cases htag' : s.tag <;> simp_all [Tag.streaming]

/-! ## Locks -/

theorem settles_leave {r : Except Errno Nat} (hr : Modest s₀.calls i r) :
    Accounting s₀ t i none (leave t i r) :=
  .bind steady_unlock fun _ => settles_finish hr

/-- A thread that needs a lock goes on with it, or waits. -/
theorem Turn.lock (h : Turn s₀ t i x s) (htaken : k.taken = x)
    (hcall : k.claim.1 = i) (hsuits : k.Suits s₀.calls) :
    wp (fun _ => True) (Udp.lock t l k)
      (fun got s' => if got then Turn s₀ t i x s' ∧ s'.streams = s.streams ∧ s'.tag = s.tag ∧
        ((s.lock l).lock t).1 = true else Accounted s') s := by
  have hset : ∀ lk, Turn s₀ t i x (s.setLock l lk) :=
    fun lk => h.congr ⟨rfl, rfl, rfl⟩ rfl rfl rfl rfl rfl
  simp only [Udp.lock, Udp.setLock, wp_bind, wp_get, wp_modify, wp_ite, wp_pure]
  split
  case isTrue hgot => exact ⟨hset _, trivial, trivial, hgot⟩
  case isFalse => exact (hset _).park (p := .locking l k) htaken (congrArg some hcall) hsuits

theorem Turn.lockThen {f : M T PUnit} (h : Turn s₀ t i x s)
    (htaken : k.taken = x) (hcall : k.claim.1 = i) (hsuits : k.Suits s₀.calls)
    (hf : ∀ s', Turn s₀ t i x s' → s'.streams = s.streams → s'.tag = s.tag →
      ((s.lock l).lock t).1 = true → Accounts f s') :
    Accounts (do if ← Udp.lock t l k then f) s := by
  refine wp_bind.mpr (wp_mono (h.lock htaken hcall hsuits) ?_)
  intro got s₁ hlocked
  cases got with
  | false => exact hlocked
  | true => exact hf s₁ hlocked.1 hlocked.2.1 hlocked.2.2.1 hlocked.2.2.2

theorem settles_lockThen {f : M T PUnit} (htaken : k.taken = x)
    (hcall : k.claim.1 = i) (hsuits : k.Suits s₀.calls) (hf : Accounting s₀ t i x f) :
    Accounting s₀ t i x (do if ← Udp.lock t l k then f) :=
  fun _ h => h.lockThen htaken hcall hsuits fun s' h' _ _ _ => hf s' h'

/-! ## Receiving -/

/-- A receive is started only when no other one is under way or has left its
result. -/
theorem Turn.recvStart (h : Turn s₀ t i none s) (hs : s.tag.streaming = true) :
    wp (fun _ => True) recvStart (fun _ s' => Turn s₀ t i none s' ∧
      s'.streams.blocking = s.streams.blocking ∧ s.streams.blocking .read = false) s := by
  simp only [Udp.recvStart, getStreams, record, wp_bind, wp_get, wp_pure, wp_require, wp_ite]
  refine ⟨fun hclear => ?_, fun _ => trivial⟩
  have hclear : s.streams.blocking .read = false := by simpa using hclear
  split
  case isTrue => exact ⟨h, trivial, hclear⟩
  case isFalse hidle =>
    obtain ⟨hsubtask, hready⟩ := not_or.mp hidle
    rw [Bool.not_eq_true] at hsubtask hready
    have hnone := (h.unclaimed hsubtask).update
    have habsent : ∀ st log,
        State.Absent { s with streams := st, receipts := log } := by
      intro st log hn
      rw [show State.tag _ = s.tag from rfl, hs] at hn
      cases hn
    split
    case h_1 r _ =>
      exact ⟨⟨h.account.startDone hnone hsubtask hready r, h.deliveries.congr (by simp),
        h.calls, h.thread, h.suits, habsent _ _⟩, rfl, hclear⟩
    case h_2 =>
      exact ⟨⟨h.account.start hnone hsubtask hready, h.deliveries.congr (by simp), h.calls,
        h.thread, h.suits, habsent _ _⟩, rfl, hclear⟩

/-- The event of the receive comes, to the only thread that waits for it. -/
theorem Turn.takeRecv (h : Turn s₀ t i none s) (hfree : s₀.Unclaimed t)
    (hsubtask : s.streams.recvSubtask = true) (event : Option RecvResult) :
    wp (fun _ => True) (takeRecv event) (fun _ s' => Turn s₀ t i event s' ∧
      s'.streams = s.streams ∧ s'.tag = s.tag) s := by
  cases event with
  | none => exact ⟨h, rfl, rfl⟩
  | some r =>
    have haccount := h.account.take hfree.update hsubtask t r
    rw [update_idem] at haccount
    exact ⟨⟨haccount, h.deliveries.congr (by simp), h.calls, h.thread, h.suits, h.absent⟩,
      rfl, rfl⟩

/-- The result is put into the streams. -/
theorem Turn.recvEnd {r : RecvResult} (h : Turn s₀ t i (some r) s) :
    wp (fun _ => True) (recvEnd r) (fun _ s' => Turn s₀ t i none s') s := by
  simp only [Udp.recvEnd, getStreams, modifyStreams, wp_bind, wp_get, wp_pure, wp_require,
    wp_modify]
  refine ⟨fun hsubtask => ?_, fun _ => trivial⟩
  refine ⟨h.account.put, h.deliveries, h.calls, h.thread, h.suits, fun hs => ?_⟩
  have := (h.absent hs).2
  rw [hsubtask] at this
  cases this

/-- The result is given to the caller. -/
theorem Turn.recvReturn (h : Turn s₀ t c.id none s) (hc : c.Suits s₀.calls) :
    Accounts (recvReturn t c) s := by
  obtain ⟨a, ha, hlength, htrunc⟩ := hc
  simp only [Udp.recvReturn, getStreams, record, wp_bind, wp_get, wp_pure, wp_require, wp_modify]
  refine ⟨fun hready => ⟨fun _ => ?_, fun _ => trivial⟩, fun _ => trivial⟩
  have hleave : ∀ r, r = outcome a s.streams.recvResult →
      Accounts (Udp.leave t c.id r) { s with
        streams := { s.streams with recvReady := false }
        receipts := s.receipts ++ [.consumed c.id s.streams.recvResult] } := by
    intro r hr
    have hdeliveries : Deliveries s.calls (update s.returned c.id (some r))
        (s.receipts ++ [.consumed c.id s.streams.recvResult]) (update s₀.callOf t none) :=
      h.deliveries.finish (.inr ⟨a, s.streams.recvResult, by simp, h.calls ▸ ha, hr⟩)
    exact accounted_parked (p := .idle) (h.account.consume hready c.id) hdeliveries h.calls
      h.thread h.suits trivial fun hs => ⟨rfl, (h.absent hs).2⟩
  split
  case h_1 e hresult => exact hleave _ (by rw [hresult]; rfl)
  case h_2 data hresult => exact hleave _ (by rw [hresult, outcome, hlength, htrunc])

theorem Turn.recvFinish {r : RecvResult} (h : Turn s₀ t c.id (some r) s)
    (hc : c.Suits s₀.calls) :
    Accounts (do Udp.recvEnd r; Udp.recvReturn t c) s :=
  wp_bind.mpr (wp_mono h.recvEnd fun _ _ h₁ => h₁.recvReturn hc)

theorem Turn.recvSynced (h : Turn s₀ t c.id none s) (hc : c.Suits s₀.calls)
    (hs : s.tag.streaming = true) (hg : s₀.Guarded t s.streams) :
    Accounts (recvSynced t c) s := by
  refine wp_bind.mpr (wp_mono (h.recvStart hs) ?_)
  rintro started s₁ ⟨h₁, -, hclear⟩
  refine wp_bind.mpr (wp_mono (steady_getStreams s₁ h₁) fun _ s₂ h₂ => wp_ite.mpr ?_)
  split
  case isTrue => exact settles_leave (modest_error _) s₂ h₂
  case isFalse =>
    simp only [getStreams, wp_bind, wp_get, wp_pure, wp_ite]
    split
    case isTrue hsubtask =>
      split
      case isTrue =>
        refine wp_mono (steady_enterBlocking s₂ h₂) fun _ s₃ h₃ => ?_
        refine wp_mono (steady_unlock s₃ h₃) fun _ s₄ h₄ => ?_
        exact h₄.park (p := .waiting (.recv c _)) rfl rfl hc
      case isFalse =>
        split
        case h_1 r _ =>
          refine wp_bind.mpr (wp_mono (h₂.takeRecv (hg hclear) hsubtask (some r)) ?_)
          rintro _ s₃ ⟨h₃, -, -⟩
          exact h₃.recvFinish hc
        case h_2 => exact settles_leave (modest_error _) s₂ h₂
    case isFalse => exact h₂.recvReturn hc

theorem settles_recvEnded {event : Option RecvResult} (hc : c.Suits s₀.calls) :
    Accounting s₀ t c.id event (recvEnded t c event) := by
  refine .bind steady_exitBlocking fun _ => ?_
  cases event with
  | none => exact settles_leave (modest_error _)
  | some r => exact fun _ h => h.recvFinish hc

/-! ## Sending -/

section

variable {c : Send} {next : M T PUnit}

theorem settles_resolved (hc : NoRecv s₀.calls c.id)
    (hnext : Accounting s₀ t c.id none next) :
    Accounting s₀ t c.id none (resolved t c next) := by
  refine .bind steady_getStreams fun st => .ite (.bind ?_ fun _ => ?_) hnext
  · exact steady_modifyStreams fun _ => ⟨rfl, rfl, rfl⟩
  · split
    case h_1 => exact settles_leave hc.modest
    case h_2 => exact hnext

theorem settles_sendResolve {own : Bool} (hc : NoRecv s₀.calls c.id)
    (hnext : Accounting s₀ t c.id none next) :
    Accounting s₀ t c.id none (sendResolve t c own next) := by
  refine .bind steady_getStreams fun _ => .ite (.ite ?_ (.get fun _ => ?_))
    (settles_resolved hc hnext)
  · exact .get fun _ => .bind steady_enterBlocking fun _ => .bind steady_unlock fun _ =>
      settles_park rfl rfl hc
  · split
    case h_1 => exact .bind steady_sendReturned fun _ => settles_resolved hc hnext
    case h_2 => exact settles_leave hc.modest

theorem settles_sent (hc : NoRecv s₀.calls c.id) :
    Accounting s₀ t c.id none (sent t c) :=
  .bind steady_getStreams fun _ => .ite (settles_sendResolve hc (settles_leave hc.modest))
    (settles_leave hc.modest)

theorem settles_issue (hc : NoRecv s₀.calls c.id) :
    Accounting s₀ t c.id none (issue t c) := by
  refine .bind steady_getStreams fun _ => .bind steady_require fun _ => .bind steady_require
    fun _ => .bind steady_require fun _ => .get fun _ => .bind steady_hostSend fun k => ?_
  split
  case h_1 => exact .bind steady_sendAnswered fun _ => settles_sent hc
  case h_2 => exact settles_park rfl rfl hc

theorem settles_resend {answer : Option SendResult} (hc : NoRecv s₀.calls c.id) :
    Accounting s₀ t c.id none (resend t c answer) := by
  refine .bind ?_ fun _ => .bind steady_hostSend fun k => ?_
  · exact steady_modifyStreams fun _ => ⟨rfl, rfl, rfl⟩
  · cases answer with
    | some r => exact .bind steady_sendAnswered fun _ => settles_sent hc
    | none =>
      refine .bind ?_ fun _ => settles_sent hc
      exact steady_modifyStreams fun _ => ⟨rfl, rfl, rfl⟩

theorem settles_sendCancelled {k : Nat} (hc : NoRecv s₀.calls c.id) :
    Accounting s₀ t c.id none (sendCancelled t c k) := by
  refine .get fun _ => ?_
  split
  case h_1 =>
    exact .bind steady_hostEnd fun _ => .bind steady_sendAnswered fun _ => settles_sent hc
  case h_2 =>
    exact .bind steady_hostEnd fun _ => .get fun _ => .ite (settles_leave hc.modest)
      (.get fun _ => settles_resend hc)

theorem settles_sendEnded {own : Bool} {event : Option SendResult} (hc : NoRecv s₀.calls c.id) :
    Accounting s₀ t c.id none (sendEnded t c own event) := by
  refine .bind steady_exitBlocking fun _ => ?_
  cases event with
  | none => exact settles_leave hc.modest
  | some r =>
    exact .bind steady_sendReturned fun _ =>
      settles_resolved hc (.ite (settles_leave hc.modest) (settles_issue hc))

end

/-! ## Calls -/

theorem Turn.transfer {c : Io} (h : Turn s₀ t c.id none s) (hc : c.Suits s₀.calls)
    (hg : s₀.Guarded t s.streams) :
    Accounts (transfer t c) s := by
  have herror : ∀ e, Accounts (Udp.leave t c.id (.error e)) s :=
    fun e => settles_leave (modest_error e) s h
  refine wp_bind.mpr (wp_bind.mpr (wp_get.mpr (wp_ite.mpr ?_)))
  split
  case isTrue => exact herror _
  case isFalse hs =>
    simp only [getStreams, wp_bind, wp_get, wp_pure, wp_ite]
    split
    case isTrue =>
      cases c with
      | recv c => exact Turn.recvSynced h hc (not_not.mp hs) hg
      | send c => exact settles_sendResolve hc (settles_issue hc) s h
    case isFalse =>
      split
      case isTrue => exact herror _
      case isFalse =>
        refine wp_mono (steady_unlock s h) fun _ s₁ h₁ => ?_
        refine wp_mono (h₁.lock (k := .bounced c) rfl rfl hc) ?_
        intro got s₂ hlocked
        cases got with
        | false => exact hlocked
        | true => trivial

theorem Turn.recvfrom (h : Turn s₀ t i none s)
    (ha : s₀.calls[i]? = some (.recvfrom a)) (hg : s₀.Guarded t s.streams) :
    Accounts (recvfrom t i a) s := by
  have herror : ∀ {e : Errno} {s' : State T}, Turn s₀ t i none s' →
      Accounts (Udp.leave t i (.error e)) s' :=
    fun h' => settles_leave (modest_error _) _ h'
  refine wp_ite.mpr ?_
  split
  case isTrue => exact herror h
  case isFalse =>
    split
    case h_1 => exact herror h
    case h_2 =>
      refine wp_bind.mpr (wp_mono (h.needStreams hg) ?_)
      rintro r s₁ ⟨h₁, hg₁⟩
      cases r with
      | error e => exact herror h₁
      | ok _ =>
        refine wp_bind.mpr (wp_get.mpr (wp_ite.mpr ?_))
        split
        case isTrue => exact herror h₁
        case isFalse =>
          exact wp_bind.mpr (wp_get.mpr (Turn.transfer h₁ ⟨a, ha, rfl, rfl⟩ hg₁))

theorem Turn.sendto {a : SendArgs} (h : Turn s₀ t i none s) (hi : NoRecv s₀.calls i)
    (hg : s₀.Guarded t s.streams) :
    Accounts (sendto t i a) s := by
  have hleave : ∀ {r : Except Errno Nat} {s' : State T}, Turn s₀ t i none s' →
      Accounts (Udp.leave t i r) s' :=
    fun h' => settles_leave hi.modest _ h'
  refine wp_ite.mpr ?_
  split
  case isTrue => exact hleave h
  case isFalse =>
    refine wp_bind.mpr (wp_get.mpr ?_)
    split
    case h_1 => exact hleave h
    case h_2 =>
      refine wp_bind.mpr (wp_mono h.needBound ?_)
      rintro r s₁ ⟨h₁, hstreams, -⟩
      cases r with
      | error e => exact hleave h₁
      | ok _ =>
        refine wp_bind.mpr (wp_mono (h₁.needStreams (hstreams ▸ hg)) ?_)
        rintro r s₂ ⟨h₂, hg₂⟩
        cases r with
        | error e => exact hleave h₂
        | ok _ =>
          refine wp_bind.mpr (wp_get.mpr (wp_ite.mpr ?_))
          split
          case isTrue => exact hleave h₂
          case isFalse => exact wp_bind.mpr (wp_get.mpr (Turn.transfer h₂ hi hg₂))

/-- A `connect` that begins here leaves streams that there are. -/
def State.Keeps (s : State T) : Prop :=
  s.tag.streaming = true → s.streams.blocking .read = true ∨ s.streams.blocking .write = true

theorem Turn.connect {remote : Except Errno Bool} (h : Turn s₀ t i none s)
    (hi : NoRecv s₀.calls i) (hkeeps : ∀ b, remote = .ok b → s.Keeps) :
    Accounts (connect t i remote) s := by
  cases remote with
  | error e => exact settles_leave hi.modest s h
  | ok b =>
    refine wp_bind.mpr (wp_mono h.needBound ?_)
    rintro r s₁ ⟨h₁, hstreams, htag⟩
    cases r with
    | error e => exact settles_leave hi.modest s₁ h₁
    | ok _ =>
      simp only [getStreams, wp_bind, wp_get, wp_pure, wp_ite]
      split
      case isTrue hs =>
        rw [if_pos (by rw [hstreams]; exact hkeeps b rfl (htag ▸ hs))]
        exact settles_leave hi.modest s₁ h₁
      case isFalse =>
        have hend : Accounting s₀ t i none (Udp.reconnect t i b) := by
          refine .bind steady_createStreams fun r => ?_
          cases r <;> exact settles_leave hi.modest
        exact hend s₁ h₁

/-! ## Polling -/

theorem Turn.pollRecv (h : Turn s₀ t i none s) (hs : s.tag.streaming = true) :
    wp (fun _ => True) (pollRecv t regs) (fun _ s' => Turn s₀ t i none s') s := by
  have hrest : Steady s₀ t i none (do
      if (← getStreams).recvReady then return (.ok (), regs)
      else do
        require ((← getStreams).recvSubtask) .assert
        if (← get).env.pollAdd .read then do
          enterBlocking t .read
          return (.ok (), regs ++ [.read])
        else return (.error .ENOMEM, regs) : M T (Except Errno Unit × List Dir)) :=
    steady_getStreams.bind fun _ => .ite (fun _ => .pure _) fun _ =>
      steady_getStreams.bind fun _ => steady_require.bind fun _ => steady_get.bind fun _ =>
        .ite (fun _ => steady_enterBlocking.bind fun _ => .pure _) fun _ => .pure _
  refine wp_bind.mpr (wp_bind.mpr (wp_get.mpr (wp_pure _ |>.mpr (wp_ite.mpr ?_))))
  split
  case isTrue => exact h
  case isFalse => exact wp_bind.mpr (wp_mono (h.recvStart hs) fun _ s₁ h₁ => hrest s₁ h₁.1)

theorem steady_pollRest {ev : Events} (r : Except Errno Unit × List Dir) :
    Steady s₀ t i none (match r with
      | (result, regs) => match result with
        | .error e => return (.error e, regs)
        | .ok _ => if ev.wrnorm then pollSend t regs else return (.ok (), regs)) := by
  obtain ⟨_ | _, regs⟩ := r
  · exact .pure _
  · exact .ite (fun _ => steady_pollSend) fun _ => .pure _

theorem Turn.pollStreams {ev : Events} (h : Turn s₀ t i none s)
    (hs : s.tag.streaming = true) :
    wp (fun _ => True) (pollStreams t ev regs) (fun _ s' => Turn s₀ t i none s') s := by
  refine wp_ite.mpr ?_
  split
  case isTrue =>
    exact wp_bind.mpr (wp_mono (h.pollRecv hs) fun r s₁ h₁ => steady_pollRest r s₁ h₁)
  case isFalse => exact wp_bind.mpr (steady_pollRest (.ok (), regs) s h)

theorem steady_pollRegister {ev : Events} :
    Steady s₀ t i none (pollRegister t ev regs) := by
  intro s h
  have hunlock : ∀ r : Except Errno Unit × List Dir, Steady s₀ t i none
      (do unlock .object; return r : M T _) := fun r => steady_unlock.bind fun _ => .pure r
  refine wp_bind.mpr (wp_get.mpr (wp_ite.mpr ?_))
  split
  case isTrue => exact hunlock _ s h
  case isFalse htag =>
    refine wp_bind.mpr (wp_mono (h.haveStreams htag) ?_)
    rintro r s₁ ⟨h₁, hs₁⟩
    cases r with
    | error e => exact hunlock _ s₁ h₁
    | ok _ =>
      exact wp_bind.mpr (wp_mono (h₁.pollStreams (hs₁ rfl)) fun r s₂ h₂ => hunlock r s₂ h₂)

theorem NoRecv.poll (hi : NoRecv s₀.calls i) : PollRules Accounted (Turn s₀ t i none) t i where
  finish _ := settles_finish hi.modest
  wait _ := settles_park rfl rfl hi
  cleanup _ _ _ _ hf := settles_lockThen rfl rfl hi hf
  register _ _ _ hf := settles_lockThen rfl rfl hi hf
  cancelled _ := steady_pollCancelled
  registered _ _ := steady_pollRegister

theorem settles_pollReady {event : Event} (hi : NoRecv s₀.calls i) :
    Accounting s₀ t i event.received (pollReady t i event regs) := by
  have hrest : Accounting s₀ t i none
      (do Udp.unlock .object; Udp.park t (.waiting (.polling i regs))) :=
    .bind steady_unlock fun _ => hi.poll.wait regs
  refine .bind steady_exitBlocking fun _ => ?_
  cases event with
  | recv r => exact fun s h => wp_bind.mpr (wp_mono h.recvEnd fun _ s₁ h₁ => hrest s₁ h₁)
  | send r =>
    exact .bind steady_getStreams fun _ => .bind steady_require fun _ =>
      .bind steady_sendReturned fun _ => hrest

/-- A thread in a blocking operation on the readable half is the only one that
can get the event of the receive. -/
def State.Receives (s₀ : State T) (t : Tid T) (s : State T) : Prop :=
  s₀.Unclaimed t ∧ s.streams.recvSubtask = true

theorem Turn.polling (h : Turn s₀ t i none s) (hi : NoRecv s₀.calls i)
    (hread : .read ∈ regs → s₀.Receives t s) :
    Accounts (polling t i regs) s := by
  refine wp_bind.mpr (wp_get.mpr ?_)
  split
  case h_1 => exact hi.poll.pollCleanup _ regs s h
  case h_2 d _ =>
    simp only [wp_bind, wp_require, wp_get]
    refine ⟨fun hmem => ?_, fun _ => trivial⟩
    split
    case h_1 => trivial
    case h_2 event hevent =>
      have htake : wp (fun _ => True) (Udp.takeRecv event.received)
          (fun _ s' => Turn s₀ t i event.received s') s := by
        cases event with
        | send r => exact h
        | recv r =>
          have hd : d = .read := by
            cases d with
            | read => rfl
            | write => simp [Env.pollEvent] at hevent
          obtain ⟨hfree, hsubtask⟩ := hread (hd ▸ hmem)
          exact wp_mono (h.takeRecv hfree hsubtask (some r)) fun _ _ h' => h'.1
      refine wp_bind.mpr (wp_mono htake fun _ s₁ h₁ => ?_)
      exact settles_lockThen (k := .ready i event (regs.erase d)) rfl rfl hi
        (settles_pollReady hi) s₁ h₁

/-! ## Steps -/

theorem Turn.begin {c : Call} (h : Turn s₀ t i none s) (hc : s₀.calls[i]? = some c)
    (hg : s₀.Guarded t s.streams) (hkeeps : ∀ b, c = .connect (.ok b) → s.Keeps) :
    Accounts (begin t i c) s := by
  cases c with
  | sendto a => exact h.sendto ⟨_, hc, nofun⟩ hg
  | recvfrom a => exact h.recvfrom hc hg
  | bind addr =>
    have hi : NoRecv s₀.calls i := ⟨_, hc, nofun⟩
    cases addr with
    | error e => exact settles_leave hi.modest s h
    | ok _ =>
      refine wp_bind.mpr (wp_mono h.doBind fun r s₁ h₁ => ?_)
      cases r <;> exact settles_leave hi.modest s₁ h₁.1
  | connect remote => exact h.connect ⟨_, hc, nofun⟩ fun b hb => hkeeps b (by rw [hb])
  | setBlocking blocking =>
    have hi : NoRecv s₀.calls i := ⟨_, hc, nofun⟩
    exact wp_bind.mpr (settles_leave hi.modest _ (h.congr ⟨rfl, rfl, rfl⟩ rfl rfl rfl rfl rfl))
  | setTimeout d timeout =>
    have hi : NoRecv s₀.calls i := ⟨_, hc, nofun⟩
    exact wp_bind.mpr (settles_leave hi.modest _ (h.congr ⟨rfl, rfl, rfl⟩ rfl rfl rfl rfl rfl))
  | poll fds => trivial

theorem Turn.call {c : Call} (h : Turn s₀ t i none s) (hc : s₀.calls[i]? = some c)
    (hg : s₀.Guarded t s.streams)
    (hkeeps : ∀ b, c = .connect (.ok b) → ((s.lock .object).lock t).1 = true → s.Keeps) :
    Accounts (call t i c) s := by
  have hbegin : Accounts (do if ← Udp.lock t .object (.begin i c) then Udp.begin t i c) s := by
    refine h.lockThen rfl rfl hc fun s₁ h₁ hstreams htag hgot => ?_
    refine h₁.begin hc (hstreams ▸ hg) fun b hb => ?_
    rw [State.Keeps, hstreams, htag]
    exact hkeeps b hb hgot
  cases c with
  | poll fds => exact (NoRecv.poll ⟨_, hc, nofun⟩).pollLoop fds [] s h
  | _ => exact hbegin

theorem Turn.acquired (h : Turn s₀ t k.claim.1 k.taken s) (hk : k.Suits s₀.calls)
    (hg : s₀.Guarded t s.streams) (hkeeps : ∀ id b, k = .begin id (.connect (.ok b)) → s.Keeps) :
    Accounts (acquired t k) s := by
  cases k with
  | begin id c => exact Turn.begin h hk hg fun b hb => hkeeps id b (by rw [hb])
  | bounced c =>
    refine wp_bind.mpr (wp_bind.mpr (runs_unlock.mpr ?_))
    have h₁ : Turn s₀ t c.id none (s.unlocked (.blocking c.dir)) :=
      h.congr ⟨rfl, rfl, rfl⟩ rfl rfl rfl rfl rfl
    exact wp_bind.mp (h₁.lockThen (k := .retry c) rfl rfl hk fun s₂ h₂ hstreams _ _ =>
      Turn.transfer h₂ hk (hstreams ▸ hg))
  | retry c => exact Turn.transfer h hk hg
  | recvEnd c event => exact settles_recvEnded hk s h
  | sendEnd c own event => exact settles_sendEnded hk s h
  | register id todo regs => exact (NoRecv.poll hk).pollResumed todo regs s h
  | ready id event regs => exact settles_pollReady hk s h
  | cleanup id d regs result =>
    exact Settles.bind steady_pollCancelled (fun _ => (NoRecv.poll hk).pollCleanup _ regs) s h

theorem Turn.answered {w : Wait} (h : Turn s₀ t w.claim.1 none s) (hw : w.Suits s₀.calls)
    (hread : .read ∈ w.owned → s₀.Receives t s) :
    Accounts (answered t w) s := by
  cases w with
  | recv c timeout =>
    obtain ⟨hfree, hsubtask⟩ := hread (List.mem_singleton.mpr rfl)
    simp only [Udp.answered, awaited, wp_bind, wp_get, wp_require, wp_pure]
    refine ⟨fun _ => wp_mono (Turn.takeRecv h hfree hsubtask _) fun _ s₁ h₁ => ?_,
      fun _ => trivial⟩
    exact wp_bind.mp (settles_lockThen (k := .recvEnd c s.env.recvEvent) rfl rfl hw
      (settles_recvEnded hw) s₁ h₁.1)
  | send c own timeout =>
    exact Settles.get (fun _ => .bind steady_awaited fun event =>
      settles_lockThen (k := .sendEnd c own event) rfl rfl hw (settles_sendEnded hw)) s h
  | polling id regs => exact Turn.polling h hw hread
  | cancelSend c k => exact settles_sendCancelled hw s h
  | cancelRecv id remote => exact hw.elim
  | closeSend id remote => exact hw.elim

/-- A thread that is in a call goes on. -/
theorem Accounted.turn (h : Accounted s) (ht : (s.thread t).call = some i) :
    Turn s t i (s.taken t) s where
  account := by
    rw [update_eq_self]
    exact h.account
  deliveries := by
    rw [← ht, show (s.thread t).call = s.callOf t from rfl, update_eq_self]
    exact h.deliveries
  calls := rfl
  thread := rfl
  suits := fun u _ => h.suits u
  absent := h.absent

/-- A thread that does not get the lock again stays where it is. -/
theorem Turn.stay (h : Turn s₀ t i x s) (htaken : (s₀.thread t).taken = x)
    (hcall : (s₀.thread t).call = some i) (hsuits : (s₀.thread t).Suits s₀.calls) :
    Accounted s := by
  have hself : s.parked t (s₀.thread t) = s := by
    rw [State.parked, ← h.thread, update_eq_self]
  rw [← hself]
  exact h.park htaken hcall hsuits

/-- A thread that has got the event is in a blocking operation. -/
theorem taken_holding (h : p.taken ≠ none) :
    p.role.at_ (.blocking .read) = .holding := by
  cases p with
  | locking l k =>
    cases k with
    | recvEnd c event => simp [Phase.role, Cont.owned]
    | ready id event regs =>
      cases event with
      | recv r => simp [Phase.role, Cont.owned, Event.dir]
      | send r => exact absurd rfl h
    | _ => exact absurd rfl h
  | _ => exact absurd rfl h

theorem Good.guarded (h : Good s) : s.Guarded t s.streams := by
  intro hclear u _
  by_contra htaken
  have hb := (h.inv.halves.blocked .read).mpr ⟨u, taken_holding htaken⟩
  rw [show s.halves.blocked .read = s.streams.blocking .read from rfl, hclear] at hb
  cases hb

theorem Good.receives (h : Good s) (ht : (s.roles t).at_ (.blocking .read) = .holding) :
    s.Receives t s := by
  refine ⟨fun u hu => ?_, h.data.blockedRecv ((h.inv.halves.blocked .read).mpr ⟨t, ht⟩)⟩
  by_contra htaken
  exact hu ((h.inv.halves.locks (.blocking .read)).unique u t (taken_holding htaken) ht)

theorem Good.word_nonneg (h : Good s) (hgot : ((s.lock .object).lock t).1 = true) :
    0 ≤ (s.lock .object).word :=
  have hlock := h.inv.halves.locks .object
  hlock.word_nonneg_iff.mpr (hlock.lock_iff.mp hgot)

variable {l : Label T}

/-- The step closes the streams, in a `connect` or when the socket is closed. -/
def Resets (s : State T) : Label T → Prop
  | .close _ _ => True
  | l => (∃ b, s.begins l = some (.connect (.ok b))) ∧ ¬ s.Keeps

theorem Tears.resets (h : Tears s l) : Resets s l := by
  obtain ⟨b, hbegins, hunsafe⟩ := h
  have hkeeps : ¬ s.Keeps := by
    intro hkeeps
    refine hunsafe fun hs hr hw => ?_
    have := hkeeps hs
    simp [hr, hw] at this
  cases l with
  | close t env => trivial
  | call t c env => exact ⟨⟨b, hbegins⟩, hkeeps⟩
  | resume t env => exact ⟨⟨b, hbegins⟩, hkeeps⟩

theorem Turn.relock {lk : LockId} (h : Turn s₀ t i x s) :
    wp (fun _ => True) (relock t lk) (fun got s' => Turn s₀ t i x s' ∧
      s'.streams = s.streams ∧ s'.tag = s.tag ∧ (got = true → 0 ≤ (s.lock lk).word)) s := by
  simp only [Udp.relock, Udp.setLock, wp_bind, wp_get, wp_require, wp_modify, wp_pure]
  refine ⟨fun _ => ⟨h.congr ⟨rfl, rfl, rfl⟩ rfl rfl rfl rfl rfl, trivial, trivial, fun hgot => ?_⟩,
    fun _ => trivial⟩
  unfold Lock.relock at hgot
  split at hgot
  case isTrue => cases hgot
  case isFalse hword => exact not_lt.mp hword

theorem Accounted.program (h : Accounted s) (hgood : Good s) (hok : ¬ Resets s l) :
    Accounts (program s l) { s with env := l.env } := by
  cases l with
  | call t c env =>
    refine wp_bind.mpr (wp_require.mpr ⟨fun hcan => ?_, fun _ => trivial⟩)
    refine wp_bind.mpr (wp_modify.mpr ?_)
    have ht : s.thread t = .idle := by
      have := hcan.2
      cases ht : s.thread t <;> simp [ht, Phase.isIdle] at this
      rfl
    have hget : ∀ (j : Nat) (c' : Call), s.calls[j]? = some c' →
        (s.calls ++ [c])[j]? = some c' := by
      intro j c' hj
      rw [List.getElem?_append_left (List.getElem?_eq_some_iff.mp hj).1, hj]
    have haccount : Account s.streams s.receipts (update s.taken t none) := by
      rw [show none = s.taken t by rw [State.taken, ht]; rfl, update_eq_self]
      exact h.account
    have hturn : Turn { s with env := env, calls := s.calls ++ [c] } t s.calls.length none
        { s with env := env, calls := s.calls ++ [c] } :=
      ⟨haccount, h.deliveries.begin c, rfl, rfl, fun u _ => (h.suits u).mono hget, h.absent⟩
    refine hturn.call (by simp) hgood.guarded fun b hb hgot => ?_
    by_contra hkeeps
    refine hok ⟨⟨b, ?_⟩, hkeeps⟩
    simp [State.begins, Label.tid, ht, hb, hgood.word_nonneg hgot]
  | resume t env =>
    have henv : Accounted { s with env := env } := ⟨h.account, h.deliveries, h.suits, h.absent⟩
    have hsuits := h.suits t
    simp only [Udp.program]
    split
    case h_1 => trivial
    case h_2 lk k ht =>
      rw [ht] at hsuits
      have hturn : Turn { s with env := env } t k.claim.1 k.taken { s with env := env } := by
        have hturn := henv.turn (t := t) (i := k.claim.1) (by simp only [ht]; rfl)
        rw [State.taken, ht] at hturn
        exact hturn
      refine wp_bind.mpr (wp_mono hturn.relock ?_)
      rintro got s₁ ⟨h₁, hstreams, htag, hword⟩
      cases got with
      | true =>
        refine h₁.acquired hsuits (hstreams ▸ hgood.guarded) ?_
        rintro id b rfl
        by_contra hkeeps
        rw [State.Keeps, hstreams, htag] at hkeeps
        refine hok ⟨⟨b, ?_⟩, hkeeps⟩
        have hformed := hgood.formed t
        rw [ht] at hformed
        cases lk with
        | object => simp [State.begins, Label.tid, ht, show 0 ≤ (s.lock .object).word from hword rfl]
        | blocking d => exact hformed.elim
      | false =>
        exact h₁.stay (by simp only [ht]; rfl) (by simp only [ht]; rfl)
          (by simp only [ht]; exact hsuits)
    case h_3 w ht =>
      rw [ht] at hsuits
      have hturn : Turn { s with env := env } t w.claim.1 none { s with env := env } := by
        have hturn := henv.turn (t := t) (i := w.claim.1) (by simp only [ht]; rfl)
        rw [State.taken, ht] at hturn
        exact hturn
      refine hturn.answered hsuits fun hread => ?_
      exact hgood.receives (by simp [State.roles, ht, Phase.role, hread])
  | close t env => exact absurd trivial hok

theorem Accounted.next (h : Accounted s) (hgood : Good s) (hok : ¬ Resets s l)
    (hs : next s l = some s') : Accounted s' :=
  state_of_wp (h.program hgood hok) hs

theorem accounted_initial (blocking : Bool) : Accounted (State.initial blocking : State T) :=
  ⟨⟨nofun, nofun, fun _ => ⟨rfl, rfl⟩, nofun⟩,
    ⟨nofun, List.nodup_nil, nofun, nofun, nofun, fun _ _ => rfl⟩, fun _ => trivial,
    fun _ => ⟨rfl, rfl⟩⟩

/-! ## Runs -/

/-- A result waits in the streams. -/
structure State.Parked (s : State T) : Prop where
  ready : s.streams.recvReady = true
  subtask : s.streams.recvSubtask = false
  clear : s.streams.blocking .read = false
  streaming : s.tag.streaming = true

/-- The run ends, and call `i` has got the result that waited in the streams. -/
abbrev Delivers (i : Nat) (f : M T PUnit) (s : State T) : Prop :=
  wp (fun _ => False) f
    (fun _ s' => s'.receipts = s.receipts ++ [.consumed i s.streams.recvResult]) s

theorem State.Parked.recvReturn (h : s.Parked) : Delivers c.id (recvReturn t c) s := by
  simp only [Udp.recvReturn, getStreams, record, wp_bind, wp_get, wp_pure, wp_require, wp_modify]
  refine ⟨fun _ => ⟨fun _ => ?_, by simp [h.subtask]⟩, by simp [h.ready]⟩
  split
  case h_1 => rfl
  case h_2 => rfl

theorem State.Parked.recvSynced (h : s.Parked) : Delivers c.id (recvSynced t c) s := by
  have hstart : ∀ {Q : Bool → State T → Prop}, Q false s → wp (fun _ => False) recvStart Q s := by
    intro Q hQ
    simp only [recvStart, getStreams, wp_bind, wp_get, wp_pure, wp_require, wp_ite]
    refine ⟨fun _ => ?_, by simp [h.clear]⟩
    rw [if_pos (.inr h.ready)]
    exact hQ
  refine wp_bind.mpr (hstart ?_)
  simp only [getStreams, wp_bind, wp_get, wp_pure, wp_ite, h.subtask]
  exact h.recvReturn

theorem State.Parked.recvfrom (h : s.Parked) (hflags : a.unsupported = false)
    (haddr : a.addr = .ok ()) : Delivers i (recvfrom t i a) s := by
  have htag : s.tag ≠ .boundNostreams := by
    intro htag
    have := h.streaming
    rw [htag] at this
    cases this
  simp only [Udp.recvfrom, needStreams, Udp.transfer, sync, synced, getStreams, wp_bind, wp_get,
    wp_pure, wp_ite, hflags, haddr, h.streaming, h.clear, Io.dir, if_neg htag]
  exact h.recvSynced

/-- A result that waits in the streams is returned by the next `recvfrom` that
gets the socket's lock. -/
theorem Accounted.delivers (h : Accounted s) (hgood : Good s) {env : Env}
    (hready : s.streams.recvReady = true) (hclosed : s.closed = false)
    (ht : s.thread t = .idle) (hword : 0 ≤ (s.lock .object).word)
    (hflags : a.unsupported = false) (haddr : a.addr = .ok ()) :
    ∃ s', Udp.next s (.call t (.recvfrom a) env) = some s' ∧
      consumed s'.receipts =
        consumed s.receipts ++ [(s.calls.length, s.streams.recvResult)] := by
  have hsubtask := h.account.exclusive hready
  have hparked : ∀ lk, State.Parked
      { s with env := env, calls := s.calls ++ [.recvfrom a], lock := lk } := by
    refine fun lk => ⟨hready, hsubtask, ?_, ?_⟩
    · by_contra hb
      have := hgood.data.blockedRecv (by simpa using hb)
      rw [hsubtask] at this
      cases this
    · by_contra hs
      have := (h.absent (by simpa using hs)).1
      rw [hready] at this
      cases this
  have hrun : Delivers s.calls.length (Udp.program s (.call t (.recvfrom a) env))
      { s with env := env } := by
    refine wp_bind.mpr (wp_require.mpr ⟨fun _ => ?_, fun hn => hn ⟨hclosed, by rw [ht]; rfl⟩⟩)
    simp only [Udp.call, Udp.lock, Lock.lock, Udp.setLock, wp_bind, wp_modify, wp_get, wp_ite,
      wp_pure, if_pos hword, if_true]
    exact (hparked _).recvfrom hflags haddr
  obtain ⟨_, s', hs', hdone⟩ := exists_ok_of_wp hrun
  refine ⟨s', ?_, ?_⟩
  · simp [Udp.next, exec, Label.env, hs', Except.toOption, Functor.map, Except.map]
  · simp [hdone]

/-- What is completed has been returned, in this order, or is the one result
that waits: in the streams, or with the one thread that got its event. -/
theorem Accounted.conserved (h : Accounted s) :
    ∃ waiting, completed s.receipts = (consumed s.receipts).map Prod.snd ++ waiting ∧
      (waiting = s.streams.parked ∧ (∀ u, s.taken u = none) ∨
        ∃ u r, waiting = [r] ∧ s.streams.parked = [] ∧ ∀ v r', s.taken v = some r' ↔
          v = u ∧ r' = r) ∧
      started s.receipts ≤ (completed s.receipts).length + 1 := by
  by_cases hfree : ∀ u, s.taken u = none
  · obtain ⟨hdone, hcount⟩ := h.account.free hfree
    refine ⟨_, hdone, .inl ⟨rfl, hfree⟩, ?_⟩
    rw [hcount]
    split <;> omega
  · obtain ⟨u, hu⟩ := not_forall.mp hfree
    obtain ⟨r, hr⟩ := Option.ne_none_iff_exists'.mp hu
    obtain ⟨hsubtask, hdone, hcount⟩ := h.account.held u r hr
    refine ⟨[r], hdone, .inr ⟨u, r, rfl, ?_, fun v r' => ⟨fun hv => ?_, ?_⟩⟩, by omega⟩
    · rw [Streams.parked, if_neg]
      intro hready
      rw [h.account.exclusive hready] at hsubtask
      cases hsubtask
    · obtain rfl := h.account.one v u r' r hv hr
      rw [hr, Option.some.injEq] at hv
      exact ⟨rfl, hv.symm⟩
    · rintro ⟨rfl, rfl⟩
      exact hr

/-- **Every receive result is returned exactly once, in order.**  In every run
of any number of threads that does not close the streams: the results that the
host has completed are those that calls of `recvfrom` have returned, in the same
order, and at most one more, which is in the streams or with the one thread that
has got its event; no call has returned two of them, each is what its call has
returned, and a `recvfrom` returns a datagram only so; a result that is in the
streams goes to the next `recvfrom`.  At most one receive is outstanding, and
none while a result is in the streams. -/
theorem recvfrom_exactly_once (blocking : Bool)
    (h : Steps.Reaches next (fun s l => ¬ Resets s l) (State.initial blocking : State T) s) :
    (∃ waiting, completed s.receipts = (consumed s.receipts).map Prod.snd ++ waiting ∧
      (waiting = s.streams.parked ∧ (∀ u, s.taken u = none) ∨
        ∃ u r, waiting = [r] ∧ s.streams.parked = [] ∧ ∀ v r', s.taken v = some r' ↔
          v = u ∧ r' = r) ∧
      started s.receipts ≤ (completed s.receipts).length + 1) ∧
    ((consumed s.receipts).map Prod.fst).Nodup ∧
    (∀ p ∈ consumed s.receipts, ∃ a, s.calls[p.1]? = some (.recvfrom a) ∧
      s.returned p.1 = some (outcome a p.2)) ∧
    (∀ i a n, s.calls[i]? = some (.recvfrom a) → s.returned i = some (.ok n) →
      i ∈ (consumed s.receipts).map Prod.fst) ∧
    (∀ t a env, s.streams.recvReady = true → s.closed = false → s.thread t = .idle →
      0 ≤ (s.lock .object).word → a.unsupported = false → a.addr = .ok () →
      ∃ s', next s (.call t (.recvfrom a) env) = some s' ∧ consumed s'.receipts =
        consumed s.receipts ++ [(s.calls.length, s.streams.recvResult)]) ∧
    ¬ (s.streams.recvReady = true ∧ s.streams.recvSubtask = true) := by
  obtain ⟨hgood, hacc⟩ : Good s ∧ Accounted s :=
    h.invariant (I := fun s => Good s ∧ Accounted s)
      ⟨good_initial blocking, accounted_initial blocking⟩
      fun _ _ _ hinv hok hs => ⟨hinv.1.next (fun ht => hok ht.resets) hs, hinv.2.next hinv.1 hok hs⟩
  refine ⟨hacc.conserved, hacc.deliveries.nodup, hacc.deliveries.truthful, hacc.deliveries.backed,
    fun t a env hready hclosed ht hword hflags haddr =>
      hacc.delivers hgood hready hclosed ht hword hflags haddr, ?_⟩
  rintro ⟨hready, hsubtask⟩
  rw [hacc.account.exclusive hready] at hsubtask
  cases hsubtask

/-- Nobody connects or closes. -/
def keepsStreams (s : State threeThreads) (l : Label threeThreads) : Bool :=
  match l with
  | .close _ _ => false
  | l => match s.begins l with
    | some (.connect _) => false
    | _ => true

/-- Two threads receive; a `poll` then leaves a third result behind. -/
theorem recvfrom_exactly_once_receiving :
    ∃ s : State threeThreads,
      Steps.Reaches next (fun s l => ¬ Resets s l) (State.initial true) s ∧
      completed s.receipts = [.ok [1], .ok [2], .ok [3]] ∧
      consumed s.receipts = [(1, .ok [1]), (2, .ok [2])] ∧
      ¬ (s.streams.recvReady = true ∧ s.streams.recvSubtask = true) := by
  have htest : ∀ s l, keepsStreams s l = true → ¬ Resets s l := by
    intro s l htest
    cases l with
    | close t env => cases htest
    | call t c env =>
      rintro ⟨⟨b, hb⟩, -⟩
      simp [keepsStreams, hb] at htest
    | resume t env =>
      rintro ⟨⟨b, hb⟩, -⟩
      simp [keepsStreams, hb] at htest
  let rest : List (Label threeThreads) :=
    [.resume 1 { quiet with recv := some (.ok [2]) },
     .call 2 (.poll [⟨true, false⟩]) quiet,
     .resume 2 { quiet with event := some .read, recvEvent := some (.ok [3]) },
     .resume 2 quiet]
  have hrun : ((receiving ++ rest).foldlM (fun s l => if keepsStreams s l then next s l else none)
      (State.initial true)).map (fun s => (completed s.receipts, consumed s.receipts)) =
      some ([.ok [1], .ok [2], .ok [3]], [(1, .ok [1]), (2, .ok [2])]) := by
    decide +kernel
  obtain ⟨s, hs, hobs⟩ := Option.map_eq_some_iff.mp hrun
  have hreach := Steps.reaches_of_foldlM_test htest hs
  obtain ⟨hcompleted, hconsumed⟩ := Prod.mk.inj hobs
  exact ⟨s, hreach, hcompleted, hconsumed, (recvfrom_exactly_once true hreach).2.2.2.2.2⟩

end WasiLibc.Udp

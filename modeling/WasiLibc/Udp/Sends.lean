import WasiLibc.Udp.Correct
import WasiLibc.Udp.Ledger

/-!
# WasiLibc.Udp.Sends

Every `sendto` on a UDP socket that returns its length has handed exactly one
copy of its datagram to the host, and one that returns `EWOULDBLOCK` none, in
all runs in which no `sendto` gives up the wait for its own datagram.

`Books s₀ t i n s` says that thread `t` runs call `i`, which has handed over
`n` copies; at a switch point the ledger is `Balanced`.
-/

namespace WasiLibc.Udp

open Function Futex Wp

variable {T : Threads} {α β : Type} {s₀ s s' : State T} {t : Tid T} {i n : Nat}

/-! ## The calls of threads -/

/-- The call is the `sendto` of the datagram. -/
def Send.Fits (calls : List Call) (c : Send) : Prop :=
  ∃ a, calls[c.id]? = some (.sendto a) ∧ a.data = c.data

/-- The call is not a `sendto`. -/
def Other (calls : List Call) (id : Nat) : Prop :=
  ∃ c, calls[id]? = some c ∧ ∀ a, c ≠ .sendto a

def Io.Fits (calls : List Call) : Io → Prop
  | .recv c => Other calls c.id
  | .send c => c.Fits calls

/-- The call of the thread, and the copies that it has handed over. -/
def Cont.claim : Cont → Nat × Nat
  | .begin id _ => (id, 0)
  | .bounced c => (c.id, 0)
  | .retry c => (c.id, 0)
  | .recvEnd c _ => (c.id, 0)
  | .sendEnd c own _ => (c.id, if own then 1 else 0)
  | .register id _ _ => (id, 0)
  | .ready id _ _ => (id, 0)
  | .cleanup id _ _ _ => (id, 0)

def Wait.claim : Wait → Nat × Nat
  | .recv c _ => (c.id, 0)
  | .send c own _ => (c.id, if own then 1 else 0)
  | .polling id _ => (id, 0)
  | .cancelSend c _ => (c.id, 1)
  | .cancelRecv id _ => (id, 0)
  | .closeSend id _ => (id, 0)

def Phase.claim : Phase → Option (Nat × Nat)
  | .idle => none
  | .locking _ k => some k.claim
  | .waiting w => some w.claim

/-- What the thread has to do is for its call; no `sendto` has given up the
wait for its own datagram. -/
def Cont.Fits (calls : List Call) : Cont → Prop
  | .begin id c => calls[id]? = some c
  | .bounced c => c.Fits calls
  | .retry c => c.Fits calls
  | .recvEnd c _ => Other calls c.id
  | .sendEnd c own event => c.Fits calls ∧ (own = true → event.isSome = true)
  | .register id _ _ => Other calls id
  | .ready id _ _ => Other calls id
  | .cleanup id _ _ _ => Other calls id

def Wait.Fits (calls : List Call) (sends : List Sent) : Wait → Prop
  | .recv c _ => Other calls c.id
  | .send c _ _ => c.Fits calls
  | .polling id _ => Other calls id
  | .cancelSend c k => c.Fits calls ∧ ∃ x, sends[k]? = some x ∧ x.call = c.id
  | .cancelRecv id _ => Other calls id
  | .closeSend id _ => Other calls id

def Phase.Fits (calls : List Call) (sends : List Sent) : Phase → Prop
  | .idle => True
  | .locking _ k => k.Fits calls
  | .waiting w => w.Fits calls sends

section

variable {calls calls' : List Call} {sends sends' : List Sent}

theorem Send.Fits.mono {c : Send} (h : c.Fits calls)
    (hcalls : ∀ (j : Nat) (c : Call), calls[j]? = some c → calls'[j]? = some c) : c.Fits calls' :=
  let ⟨a, ha, hdata⟩ := h
  ⟨a, hcalls _ _ ha, hdata⟩

theorem Other.mono {id : Nat} (h : Other calls id)
    (hcalls : ∀ (j : Nat) (c : Call), calls[j]? = some c → calls'[j]? = some c) : Other calls' id :=
  let ⟨c, hc, hne⟩ := h
  ⟨c, hcalls _ _ hc, hne⟩

theorem Io.Fits.mono {c : Io} (h : c.Fits calls)
    (hcalls : ∀ (j : Nat) (c : Call), calls[j]? = some c → calls'[j]? = some c) : c.Fits calls' := by
  cases c with
  | recv c => exact Other.mono h hcalls
  | send c => exact Send.Fits.mono h hcalls

theorem Cont.Fits.mono {k : Cont} (h : k.Fits calls)
    (hcalls : ∀ (j : Nat) (c : Call), calls[j]? = some c → calls'[j]? = some c) : k.Fits calls' := by
  cases k with
  | begin id c => exact hcalls id c h
  | bounced c => exact Io.Fits.mono h hcalls
  | retry c => exact Io.Fits.mono h hcalls
  | sendEnd c own event => exact ⟨h.1.mono hcalls, h.2⟩
  | recvEnd c event => exact Other.mono h hcalls
  | register id todo regs => exact Other.mono h hcalls
  | ready id event regs => exact Other.mono h hcalls
  | cleanup id d regs result => exact Other.mono h hcalls

/-- Calls and records are only added, and a record stays for the same call. -/
theorem Phase.Fits.mono {p : Phase} (h : p.Fits calls sends)
    (hcalls : ∀ (j : Nat) (c : Call), calls[j]? = some c → calls'[j]? = some c)
    (hsends : ∀ (k : Nat) (x : Sent), sends[k]? = some x → ∃ y : Sent, sends'[k]? = some y ∧ y.call = x.call) :
    p.Fits calls' sends' := by
  cases p with
  | idle => trivial
  | locking l k => exact Cont.Fits.mono h hcalls
  | waiting w =>
    cases w with
    | recv c timeout => exact Other.mono h hcalls
    | send c own timeout => exact Send.Fits.mono h hcalls
    | polling id regs => exact Other.mono h hcalls
    | cancelSend c k =>
      obtain ⟨hc, x, hx, hcall⟩ := h
      obtain ⟨y, hy, hycall⟩ := hsends k x hx
      exact ⟨hc.mono hcalls, y, hy, hycall.trans hcall⟩
    | cancelRecv id remote => exact Other.mono h hcalls
    | closeSend id remote => exact Other.mono h hcalls

end

def State.claims (s : State T) (u : Tid T) : Option (Nat × Nat) := (s.thread u).claim

/-- The ledger at switch points. -/
structure Balanced (s : State T) : Prop where
  ledger : Ledger s.calls s.sends s.returned s.claims
  fits : ∀ u, (s.thread u).Fits s.calls s.sends

/-- Thread `t` runs call `i`, which has handed over `n` copies. -/
structure Books (s₀ : State T) (t : Tid T) (i n : Nat) (s : State T) : Prop where
  ledger : Ledger s.calls s.sends s.returned (update s₀.claims t (some (i, n)))
  calls : s.calls = s₀.calls
  thread : s.thread = s₀.thread
  fits : ∀ u, u ≠ t → (s₀.thread u).Fits s.calls s.sends

/-! ## Rules -/

/-- Run to a switch point; a step that is not possible is no step. -/
abbrev Balances (f : M T α) (s : State T) : Prop :=
  wp (fun _ => True) f (fun _ s' => Balanced s') s

/-- From a state in which `I` holds, run to a switch point at which `B` holds; a
step that is not possible is no step. -/
def Settles (B I : State T → Prop) (f : M T α) : Prop :=
  ∀ s, I s → wp (fun _ => True) f (fun _ s' => B s') s

section

variable {B I : State T → Prop} {f : M T α} {g : α → M T β}

theorem Settles.bind (hf : Keeps (fun _ => True) I f) (hg : ∀ a, Settles B I (g a)) :
    Settles B I (f >>= g) := by
  intro s hs
  exact wp_bind.mpr (wp_mono (hf s hs) fun a s' hs' => hg a s' hs')

theorem Settles.get {g : State T → M T β} (hg : ∀ s', Settles B I (g s')) :
    Settles B I (MonadState.get >>= g) :=
  fun s hs => wp_bind.mpr (wp_get.mpr (hg s s hs))

theorem Settles.throw {e : Fault} : Settles B I (throw e : M T α) := fun _ _ => trivial

theorem Settles.ite {c : Prop} [Decidable c] {f' : M T α} (hf : Settles B I f)
    (hf' : Settles B I f') : Settles B I (if c then f else f') := by
  split
  case isTrue => exact hf
  case isFalse => exact hf'

end

/-- The ledger does not see the difference. -/
structure Unseen (s s' : State T) : Prop where
  calls : s'.calls = s.calls
  sends : s'.sends = s.sends
  returned : s'.returned = s.returned
  thread : s'.thread = s.thread

/-- A program without entries in the ledger. -/
def Silent (f : M T α) : Prop := ∀ s, wp (fun _ => True) f (fun _ s' => Unseen s s') s

theorem Unseen.refl (s : State T) : Unseen s s := ⟨rfl, rfl, rfl, rfl⟩

theorem Unseen.trans {s₁ s₂ s₃ : State T} (h : Unseen s₁ s₂) (h' : Unseen s₂ s₃) :
    Unseen s₁ s₃ :=
  ⟨h'.calls.trans h.calls, h'.sends.trans h.sends, h'.returned.trans h.returned,
    h'.thread.trans h.thread⟩

theorem silent_pure (a : α) : Silent (pure a : M T α) := fun s => Unseen.refl s

theorem silent_get : Silent (get : M T (State T)) := fun s => Unseen.refl s

theorem silent_modify {f : State T → State T} (h : ∀ s, Unseen s (f s)) :
    Silent (modify f : M T PUnit) := h

theorem silent_require {c : Prop} [Decidable c] {e : Fault} :
    Silent (require c e : M T PUnit) :=
  fun s => wp_require.mpr ⟨fun _ => Unseen.refl s, fun _ => trivial⟩

variable {f : M T α} {r : Except Errno Nat} {c : Send} {l : LockId} {d : Dir} {remote : Bool}
  {regs : List Dir} {k : Cont}

theorem Silent.bind {g : α → M T β} (hf : Silent f) (hg : ∀ a, Silent (g a)) :
    Silent (f >>= g) := by
  intro s
  refine wp_bind.mpr (wp_mono (hf s) ?_)
  intro a s₁ h₁
  exact wp_mono (hg a s₁) fun _ _ h₂ => h₁.trans h₂

theorem Silent.ite {c : Prop} [Decidable c] {g : M T α} (hf : Silent f) (hg : Silent g) :
    Silent (if c then f else g) := by
  split
  case isTrue => exact hf
  case isFalse => exact hg

theorem Books.unseen (h : Books s₀ t i n s) (hs : Unseen s s') : Books s₀ t i n s' where
  ledger := by
    rw [hs.calls, hs.sends, hs.returned]
    exact h.ledger
  calls := hs.calls.trans h.calls
  thread := hs.thread.trans h.thread
  fits := by
    rw [hs.calls, hs.sends]
    exact h.fits

/-- A program without entries is run. -/
theorem Books.silent {Q : α → State T → Prop} (h : Books s₀ t i n s) (hf : Silent f)
    (hQ : ∀ a s', Books s₀ t i n s' → Q a s') : wp (fun _ => True) f Q s :=
  wp_mono (hf s) fun a s' hs => hQ a s' (h.unseen hs)

theorem Settles.silent {f : M T α} {g : α → M T β} (hf : Silent f)
    (hg : ∀ a, Settles Balanced (Books s₀ t i n) (g a)) :
    Settles Balanced (Books s₀ t i n) (f >>= g) :=
  .bind (fun _ h => h.silent hf fun _ _ h' => h') hg

theorem Books.park {p : Phase} (h : Books s₀ t i n s) (hclaim : p.claim = some (i, n))
    (hfits : p.Fits s.calls s.sends) : Balanced (s.parked t p) := by
  have hclaims : (s.parked t p).claims = update s₀.claims t (some (i, n)) :=
    hclaim ▸ State.comp_parked Phase.claim h.thread
  exact ⟨hclaims ▸ h.ledger, State.forall_parked (P := (·.Fits s.calls s.sends)) h.thread hfits h.fits⟩

/-- The result of the call is true. -/
def Honest (calls : List Call) (i n : Nat) (r : Except Errno Nat) : Prop :=
  ∀ a, calls[i]? = some (.sendto a) → TruthfulResult a.data n r

theorem Books.finish (h : Books s₀ t i n s)
    (hr : Honest s₀.calls i n r) : Balances (finish t i r) s := by
  have hledger := h.ledger.finish fun a ha => hr a (h.calls ▸ ha)
  have hclaims : (s.parked t .idle).claims = update s₀.claims t none :=
    State.comp_parked Phase.claim h.thread
  exact ⟨hclaims ▸ hledger,
    State.forall_parked (P := (·.Fits s.calls s.sends)) h.thread trivial h.fits⟩

theorem honest_error (calls : List Call) (i : Nat) (e : Errno) : Honest calls i 0 (.error e) :=
  fun _ _ _ => rfl

theorem honest_mapped (calls : List Call) (i n : Nat) (e : SocketError) :
    Honest calls i n (.error (mapSocketError e)) := by
  intro a _ he
  cases e <;> cases he

theorem Other.honest {calls : List Call} (h : Other calls i) :
    Honest calls i n r := by
  obtain ⟨c, hc, hne⟩ := h
  intro a ha
  rw [hc, Option.some.injEq] at ha
  exact absurd ha (hne a)

theorem Send.Fits.honest {calls : List Call} (h : c.Fits calls) :
    Honest calls c.id 1 (.ok c.data.length) := by
  obtain ⟨a, ha, hdata⟩ := h
  intro a' ha'
  rw [ha] at ha'
  cases ha'
  exact ⟨by rw [hdata], rfl⟩

/-! ## Programs without entries -/

theorem silent_setLock {lk : Lock T} : Silent (setLock l lk) :=
  silent_modify fun _ => ⟨rfl, rfl, rfl, rfl⟩

theorem silent_unlock : Silent (unlock l : M T PUnit) :=
  silent_get.bind fun _ => silent_setLock

theorem silent_relock : Silent (relock t l) :=
  silent_get.bind fun _ => silent_require.bind fun _ => silent_get.bind fun _ =>
    silent_setLock.bind fun _ => silent_pure _

theorem silent_getStreams : Silent (getStreams : M T Streams) :=
  silent_get.bind fun _ => silent_pure _

theorem silent_modifyStreams {f : Streams → Streams} : Silent (modifyStreams f : M T PUnit) :=
  silent_modify fun _ => ⟨rfl, rfl, rfl, rfl⟩

theorem silent_enterBlocking : Silent (enterBlocking t d) :=
  silent_get.bind fun _ => silent_require.bind fun _ => silent_getStreams.bind fun _ =>
    silent_require.bind fun _ => silent_modifyStreams.bind fun _ => silent_get.bind fun _ =>
      silent_setLock.bind fun _ => silent_require

theorem silent_exitBlocking : Silent (exitBlocking d : M T PUnit) :=
  silent_get.bind fun _ => silent_require.bind fun _ => silent_unlock.bind fun _ =>
    silent_getStreams.bind fun _ => silent_require.bind fun _ => silent_modifyStreams

theorem silent_tear : Silent (tear t) := silent_modify fun _ => ⟨rfl, rfl, rfl, rfl⟩

theorem silent_zeroStreams : Silent (zeroStreams t) :=
  silent_tear.bind fun _ => silent_modify fun _ => ⟨rfl, rfl, rfl, rfl⟩

theorem silent_setTag {tag : Tag} {a : α} :
    Silent (do modify fun s => { s with tag := tag }; return a : M T α) :=
  Silent.bind (silent_modify fun _ => ⟨rfl, rfl, rfl, rfl⟩) fun _ => silent_pure a

theorem silent_createStreams : Silent (createStreams t remote) := by
  refine silent_get.bind fun _ => silent_require.bind fun _ => silent_zeroStreams.bind fun _ =>
    .ite (silent_get.bind fun _ => ?_) silent_setTag
  split
  case h_1 => exact silent_pure _
  case h_2 => exact silent_setTag

theorem silent_doBind : Silent (doBind : M T (Except Errno Unit)) := by
  refine silent_get.bind fun _ => .ite (silent_pure _) (silent_get.bind fun _ => ?_)
  split
  case h_1 => exact silent_pure _
  case h_2 => exact silent_setTag

theorem silent_needStreams : Silent (needStreams t) :=
  silent_get.bind fun _ => .ite silent_createStreams (silent_pure _)

theorem silent_needBound : Silent (needBound : M T (Except Errno Unit)) :=
  silent_get.bind fun _ => .ite silent_doBind (silent_pure _)

theorem silent_record {entries : List Receipt} {f : Streams → Streams} :
    Silent (record entries f : M T PUnit) := silent_modify fun _ => ⟨rfl, rfl, rfl, rfl⟩

theorem silent_takeRecv (event : Option RecvResult) : Silent (takeRecv event : M T PUnit) := by
  cases event with
  | none => exact silent_pure _
  | some r => exact silent_record

theorem silent_recvStart : Silent (recvStart : M T Bool) := by
  refine silent_getStreams.bind fun _ => silent_require.bind fun _ => .ite (silent_pure _)
    (silent_get.bind fun _ => ?_)
  split
  case h_1 => exact silent_record.bind fun _ => silent_pure _
  case h_2 => exact silent_record.bind fun _ => silent_pure _

theorem silent_recvEnd {r : RecvResult} : Silent (recvEnd r : M T PUnit) :=
  silent_getStreams.bind fun _ => silent_require.bind fun _ => silent_modifyStreams

theorem silent_awaited {timeout : Nat} {event : Option α} :
    Silent (awaited timeout event : M T (Option α)) :=
  silent_require.bind fun _ => silent_pure _

theorem silent_pollRecv : Silent (pollRecv t regs) :=
  silent_getStreams.bind fun _ => .ite (silent_pure _) <| silent_recvStart.bind fun _ =>
    silent_getStreams.bind fun _ => .ite (silent_pure _) <| silent_getStreams.bind fun _ =>
      silent_require.bind fun _ => silent_get.bind fun _ =>
        .ite (silent_enterBlocking.bind fun _ => silent_pure _) (silent_pure _)

theorem silent_pollSend : Silent (pollSend t regs) :=
  silent_getStreams.bind fun _ => .ite (silent_pure _) <| silent_getStreams.bind fun _ =>
    .ite (silent_get.bind fun _ => .ite (silent_enterBlocking.bind fun _ => silent_pure _)
      (silent_pure _)) (silent_pure _)

theorem silent_pollRest {ev : Events} (r : Except Errno Unit × List Dir) : Silent (match r with
    | (result, regs) => match result with
      | .error e => return (.error e, regs)
      | .ok _ => if ev.wrnorm then pollSend t regs else return (.ok (), regs)) := by
  obtain ⟨_ | _, regs⟩ := r
  · exact silent_pure _
  · exact .ite silent_pollSend (silent_pure _)

theorem silent_pollStreams {ev : Events} : Silent (pollStreams t ev regs) :=
  .ite (silent_pollRecv.bind silent_pollRest) ((silent_pure _).bind silent_pollRest)

theorem silent_pollRegister {ev : Events} : Silent (pollRegister t ev regs) := by
  refine silent_get.bind fun _ => .ite (silent_unlock.bind fun _ => silent_pure _)
    (silent_needStreams.bind fun r => ?_)
  split
  case h_1 => exact silent_unlock.bind fun _ => silent_pure _
  case h_2 => exact silent_pollStreams.bind fun _ => silent_unlock.bind fun _ => silent_pure _

theorem silent_pollCancelled : Silent (pollCancelled d : M T PUnit) :=
  silent_exitBlocking.bind fun _ => silent_unlock

/-! ## Locks -/

theorem Books.leave (h : Books s₀ t i n s) (hr : Honest s₀.calls i n r) :
    Balances (leave t i r) s :=
  wp_bind.mpr (h.silent silent_unlock fun _ _ h₁ => h₁.finish hr)

/-- A thread that needs a lock goes on with it, or waits. -/
theorem Books.lock (h : Books s₀ t i n s) (hclaim : k.claim = (i, n))
    (hfits : k.Fits s₀.calls) :
    wp (fun _ => True) (Udp.lock t l k)
      (fun got s' => if got then Books s₀ t i n s' else Balanced s') s := by
  have hset : ∀ lk, Books s₀ t i n (s.setLock l lk) := fun lk => h.unseen ⟨rfl, rfl, rfl, rfl⟩
  simp only [Udp.lock, Udp.setLock, wp_bind, wp_get, wp_modify, wp_ite, wp_pure]
  split
  case isTrue => exact hset _
  case isFalse =>
    refine (hset _).park (congrArg some hclaim) ?_
    rw [← h.calls] at hfits
    exact hfits

theorem Books.lockThen {f : M T PUnit} (h : Books s₀ t i n s)
    (hclaim : k.claim = (i, n)) (hfits : k.Fits s₀.calls)
    (hf : ∀ s', Books s₀ t i n s' → Balances f s') :
    Balances (do if ← Udp.lock t l k then f) s := by
  refine wp_bind.mpr (wp_mono (h.lock hclaim hfits) ?_)
  intro got s₁ hlocked
  cases got with
  | false => exact hlocked
  | true => exact hf s₁ hlocked

theorem balances_lockThen {l : LockId} {k : Cont} {f : M T PUnit} (hclaim : k.claim = (i, n))
    (hfits : k.Fits s₀.calls) (hf : Settles Balanced (Books s₀ t i n) f) :
    Settles Balanced (Books s₀ t i n) (do if ← Udp.lock t l k then f) :=
  fun _ h => h.lockThen hclaim hfits hf

theorem Other.leave {r : Except Errno Nat} (ho : Other s₀.calls i) :
    Settles Balanced (Books s₀ t i n) (leave t i r) := fun _ h => h.leave ho.honest

/-- The rest of a call that has handed over nothing. -/
abbrev Balancing (s₀ : State T) (t : Tid T) (i : Nat) (f : M T α) : Prop :=
  Settles Balanced (Books s₀ t i 0) f

/-! ## Receiving -/

section

variable {c : Recv}

theorem Other.recvReturn (ho : Other s₀.calls c.id) : Balancing s₀ t c.id (recvReturn t c) := by
  refine .silent silent_getStreams fun _ => .silent silent_require fun _ =>
    .silent silent_require fun _ => .silent silent_record fun _ => ?_
  split
  case h_1 => exact ho.leave
  case h_2 => exact ho.leave

theorem Other.recvFinish {r : RecvResult} (ho : Other s₀.calls c.id) :
    Balancing s₀ t c.id (do recvEnd r; Udp.recvReturn t c) :=
  .silent silent_recvEnd fun _ => ho.recvReturn

theorem Other.recvSynced (ho : Other s₀.calls c.id) : Balancing s₀ t c.id (recvSynced t c) := by
  refine .silent silent_recvStart fun _ => .silent silent_getStreams fun _ =>
    .ite ho.leave (.silent silent_getStreams fun _ => .ite (.ite (.get fun _ => ?_) (.get fun _ => ?_))
      ho.recvReturn)
  · exact .silent silent_enterBlocking fun _ => .silent silent_unlock fun _ _ h =>
      h.park rfl (h.calls ▸ ho)
  · split
    case h_1 => exact .silent (silent_takeRecv _) fun _ => ho.recvFinish
    case h_2 => exact ho.leave

theorem Other.recvEnded {event : Option RecvResult} (ho : Other s₀.calls c.id) :
    Balancing s₀ t c.id (recvEnded t c event) := by
  refine .silent silent_exitBlocking fun _ => ?_
  cases event with
  | none => exact ho.leave
  | some r => exact ho.recvFinish

end

/-! ## Sending -/

theorem Send.Fits.send {fate : Fate} (hc : c.Fits s₀.calls) (h : Books s₀ t c.id n s)
    (hfate : fate ≠ .cancelled) :
    Books s₀ t c.id (n + 1) { s with sends := s.sends ++ [⟨c.id, c.data, fate⟩] } := by
  obtain ⟨a, ha, hdata⟩ := hc
  refine ⟨?_, h.calls, h.thread, fun u hu => (h.fits u hu).mono (fun _ _ hj => hj) fun k x hx => ?_⟩
  · rw [← hdata]
    exact h.ledger.send (h.calls ▸ ha) hfate
  · refine ⟨x, ?_, rfl⟩
    rw [List.getElem?_append_left (List.getElem?_eq_some_iff.mp hx).1, hx]

/-- A record may change, but not the call that it is for. -/
theorem kept_set {sends : List Sent} {k : Nat} {x y : Sent} (hx : sends[k]? = some x)
    (hcall : y.call = x.call) (j : Nat) (z : Sent) (hz : sends[j]? = some z) :
    ∃ z', (sends.set k y)[j]? = some z' ∧ z'.call = z.call := by
  by_cases hj : k = j
  · subst hj
    rw [hx, Option.some.injEq] at hz
    subst hz
    exact ⟨y, by simp [(List.getElem?_eq_some_iff.mp hx).1], hcall⟩
  · exact ⟨z, by simpa [hj] using hz, rfl⟩

/-- The send of a subtask has been taken. -/
theorem Books.hostTaken {k : Nat} {Q : PUnit → State T → Prop} (h : Books s₀ t i n s)
    (hQ : ∀ s', Books s₀ t i n s' → s'.streams = s.streams → Q ⟨⟩ s') :
    wp (fun _ => True) (hostEnd k .taken) Q s := by
  refine wp_bind.mpr (wp_get.mpr ?_)
  split
  case h_1 call data hk =>
    refine wp_modify.mpr (hQ _ ⟨h.ledger.take hk, h.calls, h.thread, fun u hu => ?_⟩ rfl)
    exact (h.fits u hu).mono (fun _ _ hj => hj) (kept_set hk rfl)
  case h_2 => trivial

theorem Books.sendReturned {r : SendResult} {Q : PUnit → State T → Prop} (h : Books s₀ t i n s)
    (hQ : ∀ s', Books s₀ t i n s' → Q ⟨⟩ s') : wp (fun _ => True) (sendReturned r) Q s := by
  refine wp_bind.mpr (h.silent silent_getStreams fun st s₁ h₁ => ?_)
  split
  case h_1 => trivial
  case h_2 =>
    refine wp_bind.mpr (h₁.hostTaken fun s₂ h₂ _ => ?_)
    exact h₂.silent silent_modifyStreams fun _ => hQ

theorem Books.resolved {next : M T PUnit} (h : Books s₀ t c.id n s)
    (hnext : ∀ s', Books s₀ t c.id n s' → Balances next s') : Balances (resolved t c next) s := by
  refine wp_bind.mpr (h.silent silent_getStreams fun st s₁ h₁ => wp_ite.mpr ?_)
  split
  case isTrue =>
    refine wp_bind.mpr (h₁.silent silent_modifyStreams fun _ s₂ h₂ => ?_)
    split
    case h_1 => exact h₂.leave (honest_mapped _ _ _ _)
    case h_2 => exact hnext s₂ h₂
  case isFalse => exact hnext s₁ h₁

/-- A `sendto` that does not block has no send of its own in flight here. -/
theorem Books.sendResolve {o : Bool} {next : M T PUnit}
    (h : Books s₀ t c.id (if o then 1 else 0) s) (hc : c.Fits s₀.calls)
    (hown : o = true → c.blocking = false → s.streams.sendSubtask = none)
    (hnext : ∀ s', Books s₀ t c.id (if o then 1 else 0) s' → Balances next s') :
    Balances (sendResolve t c o next) s := by
  simp only [Udp.sendResolve, getStreams, wp_bind, wp_get, wp_pure, wp_ite]
  split
  case isTrue hsubtask =>
    split
    case isTrue =>
      refine h.silent silent_enterBlocking fun _ s₁ h₁ => ?_
      refine h₁.silent silent_unlock fun _ s₂ h₂ => ?_
      exact h₂.park rfl (h₂.calls ▸ hc)
    case isFalse hblocking =>
      split
      case h_1 r _ =>
        exact wp_bind.mpr (h.sendReturned fun s₁ h₁ => h₁.resolved hnext)
      case h_2 =>
        cases o with
        | true =>
          rw [hown rfl (by simpa using hblocking)] at hsubtask
          cases hsubtask
        | false => exact h.leave (honest_error _ _ _)
  case isFalse => exact h.resolved hnext

theorem Books.sent (h : Books s₀ t c.id 1 s) (hc : c.Fits s₀.calls)
    (hready : s.streams.sendReady = true → s.streams.sendSubtask = none) :
    Balances (sent t c) s := by
  simp only [Udp.sent, getStreams, wp_bind, wp_get, wp_pure, wp_ite]
  split
  case isTrue hor =>
    refine Books.sendResolve (o := true) h hc (fun _ hb => hready ?_) fun s₁ h₁ =>
      h₁.leave hc.honest
    simpa [hb] using hor
  case isFalse => exact h.leave hc.honest

/-- A send has returned, at once or when it was cancelled. -/
theorem Books.sendAnswered {r : SendResult} (h : Books s₀ t c.id 1 s)
    (hc : c.Fits s₀.calls) : Balances (do Udp.sendAnswered r; Udp.sent t c) s := by
  simp only [Udp.sendAnswered, getStreams, modifyStreams, wp_bind, wp_get, wp_pure, wp_require,
    wp_modify]
  refine ⟨fun hsubtask => ⟨fun _ => ?_, fun _ => trivial⟩, fun _ => trivial⟩
  exact Books.sent (h.unseen ⟨rfl, rfl, rfl, rfl⟩) hc fun _ => hsubtask

/-- The first attempt. -/
theorem Books.issue (h : Books s₀ t c.id 0 s) (hc : c.Fits s₀.calls) :
    Balances (issue t c) s := by
  simp only [Udp.issue, getStreams, hostSend, wp_bind, wp_get, wp_pure, wp_require, wp_modify]
  refine ⟨fun _ => ⟨fun _ => ⟨fun _ => ?_, fun _ => trivial⟩, fun _ => trivial⟩, fun _ => trivial⟩
  generalize hans : s.env.send = answer
  cases answer with
  | some r => exact (hc.send h (show Fate.taken ≠ .cancelled from by simp)).sendAnswered hc
  | none =>
    have h₁ := hc.send h (show Fate.pending ≠ .cancelled from by simp)
    exact h₁.park rfl ⟨h.calls ▸ hc, ⟨c.id, c.data, .pending⟩, by simp, rfl⟩

/-- The second attempt, with no result left behind. -/
theorem Books.resend {answer : Option SendResult} (h : Books s₀ t c.id 0 s)
    (hc : c.Fits s₀.calls) (hready : s.streams.sendReady = false) :
    Balances (resend t c answer) s := by
  simp only [Udp.resend, modifyStreams, hostSend, wp_bind, wp_modify, wp_get, wp_pure]
  have h₁ : Books s₀ t c.id 0 { s with streams := { s.streams with copy := true } } :=
    h.unseen ⟨rfl, rfl, rfl, rfl⟩
  cases answer with
  | some r =>
    have h₂ : Books s₀ t c.id 1 _ := hc.send h₁ (show Fate.taken ≠ .cancelled from by simp)
    exact h₂.sendAnswered hc
  | none =>
    have h₂ := hc.send h₁ (show Fate.pending ≠ .cancelled from by simp)
    refine wp_bind.mpr (wp_modify.mpr (Books.sent (h₂.unseen ⟨rfl, rfl, rfl, rfl⟩) hc ?_))
    simp [hready]

theorem Books.sendCancelled {k : Nat} (h : Books s₀ t c.id 1 s) (hc : c.Fits s₀.calls)
    (hk : ∃ x, s.sends[k]? = some x ∧ x.call = c.id) (hready : s.streams.sendReady = false) :
    Balances (sendCancelled t c k) s := by
  refine wp_bind.mpr (wp_get.mpr ?_)
  split
  case h_1 => exact wp_bind.mpr (h.hostTaken fun s₁ h₁ _ => h₁.sendAnswered hc)
  case h_2 =>
    refine wp_bind.mpr (wp_bind.mpr (wp_get.mpr ?_))
    split
    case h_1 call data hpending =>
      obtain ⟨x, hx, hcall⟩ := hk
      rw [hpending, Option.some.injEq] at hx
      subst hx hcall
      have h₁ : Books s₀ t c.id 0
          { s with sends := s.sends.set k ⟨c.id, data, .cancelled⟩ } :=
        ⟨h.ledger.cancel hpending, h.calls, h.thread, fun u hu =>
          (h.fits u hu).mono (fun _ _ hj => hj) (kept_set hpending rfl)⟩
      refine wp_modify.mpr (wp_bind.mpr (wp_get.mpr (wp_ite.mpr ?_)))
      split
      case isTrue => exact h₁.leave (honest_error _ _ _)
      case isFalse => exact wp_bind.mpr (wp_get.mpr (h₁.resend hc hready))
    case h_2 => trivial

theorem Books.sendEnded {own : Bool} {event : Option SendResult}
    (h : Books s₀ t c.id (if own then 1 else 0) s) (hc : c.Fits s₀.calls)
    (hevent : own = true → event.isSome = true) : Balances (sendEnded t c own event) s := by
  refine wp_bind.mpr (h.silent silent_exitBlocking fun _ s₁ h₁ => ?_)
  cases event with
  | none =>
    cases own with
    | true => cases hevent rfl
    | false => exact h₁.leave (honest_error _ _ _)
  | some r =>
    refine wp_bind.mpr (h₁.sendReturned fun s₂ h₂ => h₂.resolved fun s₃ h₃ => ?_)
    cases own with
    | true => exact h₃.leave hc.honest
    | false => exact h₃.issue hc

/-! ## Calls -/

theorem Books.synced {c : Io} (h : Books s₀ t c.id 0 s) (hc : c.Fits s₀.calls) :
    Balances (synced t c) s := by
  cases c with
  | recv c => exact Other.recvSynced hc s h
  | send c =>
    exact Books.sendResolve (o := false) h hc nofun fun s₁ h₁ => Books.issue h₁ hc

theorem Books.transfer {c : Io} (h : Books s₀ t c.id 0 s) (hc : c.Fits s₀.calls) :
    Balances (transfer t c) s := by
  refine wp_bind.mpr (wp_bind.mpr (wp_get.mpr (wp_ite.mpr ?_)))
  split
  case isTrue => exact h.leave (honest_error _ _ _)
  case isFalse =>
    refine wp_bind.mpr (h.silent silent_getStreams fun st s₁ h₁ => wp_ite.mpr ?_)
    split
    case isTrue => exact h₁.synced hc
    case isFalse =>
      refine wp_ite.mpr ?_
      split
      case isTrue => exact h₁.leave (honest_error _ _ _)
      case isFalse =>
        refine wp_bind.mpr (h₁.silent silent_unlock fun _ s₂ h₂ => ?_)
        refine wp_bind.mpr (wp_mono (h₂.lock rfl hc) ?_)
        intro got s₃ hlocked
        cases got with
        | false => exact hlocked
        | true => trivial

theorem Other.recvfrom {a : RecvArgs} (ho : Other s₀.calls i) :
    Balancing s₀ t i (recvfrom t i a) := by
  refine .ite ho.leave ?_
  split
  case h_1 => exact ho.leave
  case h_2 =>
    refine .silent silent_needStreams fun r => ?_
    cases r with
    | error e => exact ho.leave
    | ok _ => exact .get fun _ => .ite ho.leave (.get fun _ _ h => Books.transfer h ho)

theorem balances_sendto {a : SendArgs} (ha : s₀.calls[i]? = some (.sendto a)) :
    Balancing s₀ t i (sendto t i a) := by
  have herror : ∀ {e : Errno}, Balancing s₀ t i (Udp.leave t i (.error e)) :=
    fun _ h => h.leave (honest_error _ _ _)
  refine .ite herror (.get fun _ => ?_)
  split
  case h_1 => exact herror
  case h_2 =>
    refine .silent silent_needBound fun r => ?_
    cases r with
    | error e => exact herror
    | ok _ =>
      refine .silent silent_needStreams fun r => ?_
      cases r with
      | error e => exact herror
      | ok _ =>
        exact .get fun _ => .ite herror (.get fun _ _ h => Books.transfer h ⟨a, ha, rfl⟩)

/-! ### Connecting -/

section

variable {remote : Bool}

theorem Other.reconnect (ho : Other s₀.calls i) : Balancing s₀ t i (reconnect t i remote) := by
  refine .silent silent_createStreams fun r => ?_
  cases r <;> exact ho.leave

theorem Other.closedStreams (ho : Other s₀.calls i) : Balancing s₀ t i (closedStreams t i remote) :=
  .silent silent_modifyStreams fun _ => .silent (silent_modify fun _ => ⟨rfl, rfl, rfl, rfl⟩)
    fun _ => ho.reconnect

theorem Other.closeSend (ho : Other s₀.calls i) : Balancing s₀ t i (closeSend t i remote) :=
  .silent silent_modifyStreams fun _ => .silent silent_getStreams fun _ => .ite
    (.silent silent_getStreams fun _ => .silent silent_require fun _ _ h =>
      h.park rfl (h.calls ▸ ho)) ho.closedStreams

theorem Other.closeStreams (ho : Other s₀.calls i) : Balancing s₀ t i (closeStreams t i remote) :=
  .silent silent_tear fun _ => .silent silent_getStreams fun _ => .silent silent_require fun _ =>
    .silent silent_require fun _ => .ite
      (.silent silent_require fun _ _ h => h.park rfl (h.calls ▸ ho)) ho.closeSend

end

theorem Other.connect {remote : Except Errno Bool} (ho : Other s₀.calls i) :
    Balancing s₀ t i (connect t i remote) := by
  cases remote with
  | error e => exact ho.leave
  | ok b =>
    refine .silent silent_needBound fun r => ?_
    cases r with
    | error e => exact ho.leave
    | ok _ =>
      exact .get fun _ => .ite (.silent silent_getStreams fun _ => .silent silent_getStreams fun _ =>
        .ite ho.leave ho.closeStreams) ho.reconnect

/-! ### Polling -/

/-- What a `poll` needs of the steps that it is made of. -/
structure PollRules (B I : State T → Prop) (t : Tid T) (i : Nat) : Prop where
  finish : ∀ r, Settles B I (finish t i r)
  wait : ∀ regs, Settles B I (park t (.waiting (.polling i regs)))
  cleanup : ∀ d regs result {f}, Settles B I f →
    Settles B I (do if ← Udp.lock t .object (.cleanup i d regs result) then f)
  register : ∀ todo regs {f}, Settles B I f →
    Settles B I (do if ← Udp.lock t .object (.register i todo regs) then f)
  cancelled : ∀ d, Keeps (fun _ => True) I (pollCancelled d)
  registered : ∀ ev regs, Keeps (fun _ => True) I (pollRegister t ev regs)

namespace PollRules

variable {B I : State T → Prop} (h : PollRules B I t i)

include h

theorem pollCleanup (result : Except Errno Unit) (regs : List Dir) :
    Settles B I (pollCleanup t i result regs) := by
  induction regs with
  | nil => exact h.finish _
  | cons d regs ih => exact h.cleanup d regs result (.bind (h.cancelled d) fun _ => ih)

theorem pollRegistered {next : List Dir → M T PUnit} (hnext : ∀ regs, Settles B I (next regs))
    (r : Except Errno Unit × List Dir) : Settles B I (pollRegistered t i next r) := by
  obtain ⟨result, regs⟩ := r
  cases result with
  | ok _ => exact hnext regs
  | error e => exact h.pollCleanup _ regs

theorem pollLoop (todo : List Events) (regs : List Dir) :
    Settles B I (pollLoop t i todo regs) := by
  induction todo generalizing regs with
  | nil => exact h.wait regs
  | cons ev todo ih =>
    exact h.register _ regs (.bind (h.registered ev regs) fun r => h.pollRegistered ih r)

theorem pollResumed (todo : List Events) (regs : List Dir) :
    Settles B I (pollResumed t i todo regs) := by
  cases todo with
  | nil => exact .throw
  | cons ev todo =>
    exact .bind (h.registered ev regs) fun r => h.pollRegistered (h.pollLoop todo) r

end PollRules

theorem Other.poll (ho : Other s₀.calls i) : PollRules Balanced (Books s₀ t i 0) t i where
  finish _ _ h := h.finish ho.honest
  wait _ _ h := h.park rfl (h.calls ▸ ho)
  cleanup _ _ _ _ hf := balances_lockThen rfl ho hf
  register _ _ _ hf := balances_lockThen rfl ho hf
  cancelled _ _ h := h.silent silent_pollCancelled fun _ _ h' => h'
  registered _ _ _ h := h.silent silent_pollRegister fun _ _ h' => h'

theorem keeps_sendReturned {r : SendResult} :
    Keeps (fun _ => True) (Books s₀ t i n) (sendReturned r) :=
  fun _ h => h.sendReturned fun _ h' => h'

theorem Other.pollReady {event : Event} {regs : List Dir} (ho : Other s₀.calls i) :
    Balancing s₀ t i (pollReady t i event regs) := by
  have hrest : Balancing s₀ t i
      (do Udp.unlock .object; Udp.park t (.waiting (.polling i regs))) :=
    .silent silent_unlock fun _ => ho.poll.wait regs
  refine .silent silent_exitBlocking fun _ => ?_
  cases event with
  | recv r => exact .silent silent_recvEnd fun _ => hrest
  | send r =>
    exact .silent silent_getStreams fun _ => .silent silent_require fun _ =>
      .bind keeps_sendReturned fun _ => hrest

theorem Other.polling {regs : List Dir} (ho : Other s₀.calls i) :
    Balancing s₀ t i (polling t i regs) := by
  refine .get fun _ => ?_
  split
  case h_1 => exact ho.poll.pollCleanup _ regs
  case h_2 =>
    refine .silent silent_require fun _ => .get fun _ => ?_
    split
    case h_1 => exact .throw
    case h_2 => exact .silent (silent_takeRecv _) fun _ => balances_lockThen rfl ho ho.pollReady

/-! ## Steps -/

theorem balances_begin {c : Call} (hc : s₀.calls[i]? = some c) :
    Balancing s₀ t i (begin t i c) := by
  have hother : (∀ a, c ≠ .sendto a) → Other s₀.calls i := fun hne => ⟨c, hc, hne⟩
  cases c with
  | sendto a => exact balances_sendto hc
  | recvfrom a => exact (hother nofun).recvfrom
  | bind addr =>
    cases addr with
    | error e => exact (hother nofun).leave
    | ok _ =>
      refine .silent silent_doBind fun r => ?_
      cases r <;> exact (hother nofun).leave
  | connect remote => exact (hother nofun).connect
  | setBlocking blocking =>
    exact .silent (silent_modify fun _ => ⟨rfl, rfl, rfl, rfl⟩) fun _ => (hother nofun).leave
  | setTimeout d timeout =>
    exact .silent (silent_modify fun _ => ⟨rfl, rfl, rfl, rfl⟩) fun _ => (hother nofun).leave
  | poll fds => exact .throw

theorem balances_call {c : Call} (hc : s₀.calls[i]? = some c) :
    Balancing s₀ t i (call t i c) := by
  cases c with
  | poll fds => exact (Other.poll ⟨_, hc, nofun⟩).pollLoop fds []
  | _ => exact balances_lockThen rfl hc (balances_begin hc)

theorem Books.acquired (h : Books s₀ t k.claim.1 k.claim.2 s) (hk : k.Fits s₀.calls) :
    Balances (acquired t k) s := by
  cases k with
  | begin id c => exact balances_begin hk s h
  | bounced c =>
    refine wp_bind.mpr (wp_bind.mpr (h.silent silent_unlock fun _ s₁ h₁ => ?_))
    exact wp_bind.mp (h₁.lockThen (k := .retry c) rfl hk fun s₂ h₂ => Books.transfer h₂ hk)
  | retry c => exact Books.transfer h hk
  | recvEnd c event => exact Other.recvEnded hk s h
  | sendEnd c own event => exact Books.sendEnded h hk.1 hk.2
  | register id todo regs => exact (Other.poll hk).pollResumed todo regs s h
  | ready id event regs => exact Other.pollReady hk s h
  | cleanup id d regs result =>
    exact Settles.silent silent_pollCancelled (fun _ => (Other.poll hk).pollCleanup _ regs) s h

/-- A thread that is in a call goes on. -/
theorem Balanced.books (h : Balanced s) (ht : (s.thread t).claim = some (i, n)) :
    Books s t i n s where
  ledger := by
    have hclaims : update s.claims t (some (i, n)) = s.claims := by
      rw [← ht]
      exact update_eq_self t s.claims
    rw [hclaims]
    exact h.ledger
  calls := rfl
  thread := rfl
  fits := fun u _ => h.fits u

/-- A thread that does not get the lock again stays where it is. -/
theorem Books.stay (h : Books s₀ t i n s) (ht : (s₀.thread t).claim = some (i, n))
    (hfits : (s₀.thread t).Fits s.calls s.sends) : Balanced s := by
  have hself : s.parked t (s₀.thread t) = s := by
    rw [State.parked, ← h.thread, update_eq_self]
  rw [← hself]
  exact h.park ht hfits

/-- A `sendto` with a timeout gives up the wait for its own datagram. -/
def GivesUp (s : State T) : Label T → Prop
  | .resume t env => ∃ c timeout, s.thread t = .waiting (.send c true timeout) ∧
      env.sendEvent = none
  | _ => False

theorem Balanced.answered {w : Wait} (h : Balanced s) (hgood : Good s)
    (ht : s.thread t = .waiting w)
    (hok : ∀ c timeout, w = .send c true timeout → s.env.sendEvent.isSome = true) :
    Balances (answered t w) s := by
  have hbooks : Books s t w.claim.1 w.claim.2 s := h.books (by rw [ht]; rfl)
  have hfits := h.fits t
  rw [ht] at hfits
  cases w with
  | recv c timeout =>
    exact Settles.get (fun _ => .silent silent_awaited fun event =>
      .silent (silent_takeRecv event) fun _ =>
        balances_lockThen (k := .recvEnd c event) rfl hfits (Other.recvEnded hfits)) s hbooks
  | send c own timeout =>
    simp only [Udp.answered, awaited, wp_bind, wp_get, wp_require, wp_pure]
    refine ⟨fun _ => ?_, fun _ => trivial⟩
    have hevent : own = true → s.env.sendEvent.isSome = true := by
      rintro rfl
      exact hok c timeout rfl
    exact wp_bind.mp (Books.lockThen (k := .sendEnd c own s.env.sendEvent) hbooks rfl
      ⟨hfits, hevent⟩ fun s₁ h₁ => Books.sendEnded h₁ hfits hevent)
  | polling id regs => exact Other.polling hfits s hbooks
  | cancelSend c k =>
    have hrelies := hgood.relies t
    rw [ht] at hrelies
    exact Books.sendCancelled hbooks hfits.1 hfits.2 hrelies.2.2.2.1
  | cancelRecv id remote =>
    exact Settles.silent silent_modifyStreams (fun _ => Other.closeSend hfits) s hbooks
  | closeSend id remote =>
    refine wp_bind.mpr (wp_get.mpr ?_)
    split
    case h_1 => trivial
    case h_2 =>
      exact Settles.bind keeps_sendReturned (fun _ => Other.closedStreams hfits) s hbooks

/-- The last descriptor is closed: the last send is waited for. -/
theorem Balanced.free (h : Balanced s) : Balances (free t) s := by
  simp only [Udp.free, tear, getStreams, wp_bind, wp_get, wp_modify, wp_ite, wp_pure]
  split
  case isTrue =>
    split
    case isTrue hsubtask =>
      obtain ⟨k, hk⟩ := Option.isSome_iff_exists.mp hsubtask
      split
      case h_1 => trivial
      case h_2 =>
        simp only [Udp.sendReturned, getStreams, hostEnd, modifyStreams, wp_bind, wp_get,
          wp_pure, hk]
        split
        case h_1 call data hpending =>
          exact ⟨h.ledger.take hpending, fun u =>
            (h.fits u).mono (fun _ _ hj => hj) (kept_set hpending rfl)⟩
        case h_2 => trivial
    case isFalse => exact ⟨h.ledger, h.fits⟩
  case isFalse => exact ⟨h.ledger, h.fits⟩

variable {l : Label T}

theorem Balanced.program (h : Balanced s) (hgood : Good s) (hok : ¬ GivesUp s l) :
    Balances (program s l) { s with env := l.env } := by
  have henv : Balanced { s with env := l.env } := ⟨h.ledger, h.fits⟩
  cases l with
  | call t c env =>
    refine wp_bind.mpr (wp_require.mpr ⟨fun _ => ?_, fun _ => trivial⟩)
    refine wp_bind.mpr (wp_modify.mpr ?_)
    have hget : ∀ (j : Nat) (c' : Call), s.calls[j]? = some c' →
        (s.calls ++ [c])[j]? = some c' := by
      intro j c' hj
      rw [List.getElem?_append_left (List.getElem?_eq_some_iff.mp hj).1, hj]
    have hbooks : Books { s with env := env, calls := s.calls ++ [c] } t s.calls.length 0
        { s with env := env, calls := s.calls ++ [c] } :=
      ⟨h.ledger.call c, rfl, rfl, fun u _ => (h.fits u).mono hget fun k x hx => ⟨x, hx, rfl⟩⟩
    exact balances_call (by simp) _ hbooks
  | resume t env =>
    simp only [Udp.program]
    split
    case h_1 => trivial
    case h_2 lk k ht =>
      have hbooks : Books { s with env := env } t k.claim.1 k.claim.2 { s with env := env } :=
        henv.books (by simp [ht, Phase.claim])
      have hfits := h.fits t
      rw [ht] at hfits
      refine wp_bind.mpr (hbooks.silent silent_relock fun got s₁ h₁ => ?_)
      cases got with
      | true => exact h₁.acquired hfits
      | false =>
        exact h₁.stay (by simp [ht, Phase.claim]) (by simp only [ht]; exact h₁.calls ▸ hfits)
    case h_3 w ht =>
      refine henv.answered (hgood.given env s.calls) ht fun c timeout hw => ?_
      rw [Option.isSome_iff_ne_none]
      intro hnone
      exact hok ⟨c, timeout, by rw [ht, hw], hnone⟩
  | close t env =>
    exact wp_bind.mpr (wp_require.mpr ⟨fun _ => henv.free, fun _ => trivial⟩)

theorem Balanced.next (h : Balanced s) (hgood : Good s) (hok : ¬ GivesUp s l)
    (hs : next s l = some s') : Balanced s' :=
  state_of_wp (h.program hgood hok) hs

theorem balanced_initial (blocking : Bool) : Balanced (State.initial blocking : State T) :=
  ⟨⟨nofun, nofun, nofun, nofun, fun _ _ => rfl⟩, fun _ => trivial⟩

/-! ## Runs -/

/-- **Sends are made exactly once, and their results are true.**  In every run
of any number of threads in which no `sendto` with a timeout gives up the wait
for its own datagram, a `sendto` that has returned its length has handed over
exactly one copy of its datagram, and one that has returned `EWOULDBLOCK`
none; and nothing but its datagram was handed over for it.  (A `connect` must
not tear the streams; there is none in runs of `sendto`, `poll` and `close`.) -/
theorem sendto_exactly_once (blocking : Bool)
    (h : Steps.Reaches next (fun s l => ¬ Tears s l ∧ ¬ GivesUp s l)
      (State.initial blocking : State T) s)
    (id : Nat) (a : SendArgs) (ha : s.calls[id]? = some (.sendto a)) :
    (∀ n, s.returned id = some (.ok n) → n = a.data.length ∧ copies s.sends id = 1) ∧
    (s.returned id = some (.error .EWOULDBLOCK) → copies s.sends id = 0) ∧
    (∀ x ∈ s.sends, x.call = id → x.data = a.data) := by
  have hboth : Good s ∧ Balanced s :=
    h.invariant (I := fun s => Good s ∧ Balanced s) ⟨good_initial blocking, balanced_initial blocking⟩
      fun _ _ _ hinv hok hs => ⟨hinv.1.next hok.1 hs, hinv.2.next hinv.1 hok.2 hs⟩
  have hledger := hboth.2.ledger
  refine ⟨fun n hr => hledger.truthful id a _ ha hr, fun hr => hledger.truthful id a _ ha hr rfl, ?_⟩
  rintro x hx rfl
  obtain ⟨a', ha', hdata⟩ := hledger.data x hx
  rw [ha, Option.some.injEq, Call.sendto.injEq] at ha'
  rw [ha', hdata]

/-- One thread, for examples. -/
abbrev oneThread : Threads := ⟨1, by decide⟩

/-- The start of a run: a `sendto` with a timeout is tried with the caller's
buffer, cancelled and made again with a copy, which does not return. -/
def resending : List (Label oneThread) :=
  [.call 0 (.setTimeout .write 5) quiet,
   .call 0 (.sendto ⟨[1, 2], false, false, some (.ok ()), 16⟩) quiet,
   .resume 0 quiet]

/-- Nobody connects, and a copy that is waited for is taken. -/
def takesCopies (s : State oneThread) (l : Label oneThread) : Bool :=
  (s.begins l != some (.connect (.ok true)) && s.begins l != some (.connect (.ok false))) &&
    match l with
    | .resume t env => match s.thread t with
      | .waiting (.send _ true _) => env.sendEvent.isSome
      | _ => true
    | _ => true

/-- The copy is taken in time. -/
theorem sendto_exactly_once_resending :
    ∃ s : State oneThread,
      Steps.Reaches next (fun s l => ¬ Tears s l ∧ ¬ GivesUp s l) (State.initial true) s ∧
      s.calls[1]? = some (.sendto ⟨[1, 2], false, false, some (.ok ()), 16⟩) ∧
      s.returned 1 = some (.ok 2) ∧ copies s.sends 1 = 1 := by
  have htest : ∀ s l, takesCopies s l = true → ¬ Tears s l ∧ ¬ GivesUp s l := by
    intro s l htest
    simp only [takesCopies, Bool.and_eq_true, bne_iff_ne] at htest
    refine ⟨?_, ?_⟩
    · rintro ⟨b, hb, _⟩
      cases b with
      | true => exact htest.1.1 hb
      | false => exact htest.1.2 hb
    · cases l with
      | resume t env =>
        rintro ⟨c, timeout, ht, hnone⟩
        simp [ht, hnone] at htest
      | _ => exact id
  let rest : List (Label oneThread) := [.resume 0 { quiet with sendEvent := some (.ok ()) }]
  have hrun : ((resending ++ rest).foldlM (fun s l => if takesCopies s l then next s l else none)
      (State.initial true)).map (fun s => (s.calls[1]?, s.returned 1)) =
      some (some (.sendto ⟨[1, 2], false, false, some (.ok ()), 16⟩), some (.ok 2)) := by
    decide +kernel
  obtain ⟨s, hs, hobs⟩ := Option.map_eq_some_iff.mp hrun
  have hreach := Steps.reaches_of_foldlM_test htest hs
  obtain ⟨hcall, hreturned⟩ := Prod.mk.inj hobs
  exact ⟨s, hreach, hcall, hreturned,
    ((sendto_exactly_once true hreach 1 _ hcall).1 2 hreturned).2⟩

/-- The wait for the copy times out, and the call returns `EWOULDBLOCK`; the
copy is handed over all the same, here when the socket is closed. -/
theorem sent_after_timeout :
    ∃ s : State oneThread, Steps.Reaches next (fun _ _ => True) (State.initial true) s ∧
      s.returned 1 = some (.error .EWOULDBLOCK) ∧
      s.sends = [⟨1, [1, 2], .cancelled⟩, ⟨1, [1, 2], .taken⟩] ∧ copies s.sends 1 ≠ 0 := by
  let rest : List (Label oneThread) :=
    [.resume 0 quiet, .close 0 { quiet with sendEvent := some (.ok ()) }]
  have hrun : ((resending ++ rest).foldlM next (State.initial true)).map
      (fun s => (s.returned 1, s.sends)) =
      some (some (.error .EWOULDBLOCK), [⟨1, [1, 2], .cancelled⟩, ⟨1, [1, 2], .taken⟩]) := by
    decide +kernel
  obtain ⟨s, hs, hobs⟩ := Option.map_eq_some_iff.mp hrun
  obtain ⟨hreturned, hsends⟩ := Prod.mk.inj hobs
  exact ⟨s, Steps.reaches_of_foldlM hs, hreturned, hsends, by rw [hsends]; decide⟩

end WasiLibc.Udp

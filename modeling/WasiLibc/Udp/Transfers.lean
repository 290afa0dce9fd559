import WasiLibc.Udp.Rules

/-!
# WasiLibc.Udp.Transfers

What a step of `recvfrom` or `sendto` keeps: one lemma for each function.  No
assertion of the code fails, whatever the host does.
-/

namespace WasiLibc.Udp

open Futex Wp

variable {T : Threads} {ok : Fault → Prop} {s₀ s : State T} {t : Tid T} {owned : List Dir}

/-- The thread holds the socket's lock and nothing else. -/
abbrev Held (s₀ : State T) (t : Tid T) (s : State T) : Prop :=
  Mid s₀ t (role .holding [] none) s

/-- The function leaves the thread at a switch point. -/
abbrev Stops (ok : Fault → Prop) (s₀ : State T) (t : Tid T) (f : M T PUnit) (s : State T) :
    Prop :=
  Runs ok f (fun _ s' => Ended s₀ t s') s

theorem Held.leave (h : Held s₀ t s) (id : Nat) (result : Except Errno Nat) :
    Stops ok s₀ t (leave t id result) s :=
  wp_bind.mpr (runs_unlock.mpr (h.unlockObject.finish id result))

/-- The thread waits for the host in a blocking operation. -/
theorem Mid.parkBlocking {w : Wait} {d : Dir} (h : Mid s₀ t (role .outside [d] none) s)
    (hholds : w.holds = false) (howned : w.owned = [d]) (hcloses : w.closes = false) :
    Stops ok s₀ t (Udp.park t (.waiting w)) s := by
  have h : Mid s₀ t (Phase.waiting w).role s := by
    rw [role_waiting hcloses, hholds, howned]
    exact h
  refine h.park ?_ ?_ nofun
  · show w.owned.Nodup
    simp [howned]
  · cases w <;> trivial

/-- A blocking operation begins. -/
theorem Held.await {w : Wait} {d : Dir} (h : Held s₀ t s) (hstreaming : s.tag.streaming = true)
    (hb : s.streams.blocking d = false) (hbusy : s.streams.busy d = true)
    (hholds : w.holds = false) (howned : w.owned = [d]) (hcloses : w.closes = false) :
    Runs ok (enterBlocking t d) (fun _ s' =>
      Runs ok (unlock .object) (fun _ s' => Stops ok s₀ t (Udp.park t (.waiting w)) s') s') s := by
  refine runs_enter h (by simp) hstreaming hb hbusy fun h₁ => runs_unlock.mpr ?_
  exact h₁.unlockObject.parkBlocking hholds howned hcloses

/-! ## Receiving -/

/-- What `wasip3_recv_start` and the like leave alone. -/
structure Same (s s' : State T) : Prop where
  tag : s'.tag = s.tag
  blocking : s'.streams.blocking = s.streams.blocking

theorem Mid.recvStart (h : Mid s₀ t (role .holding owned none) s)
    (hb : s.streams.blocking .read = false) :
    Runs ok recvStart (fun _ s' => Mid s₀ t (role .holding owned none) s' ∧ Same s s' ∧
      (s'.streams.recvReady = false → s'.streams.recvSubtask = true)) s := by
  simp only [Udp.recvStart, getStreams, wp_bind, wp_get, wp_pure, wp_require, wp_ite, hb]
  refine ⟨fun _ => ?_, by simp⟩
  split
  case isTrue hbusy => exact ⟨h, ⟨rfl, rfl⟩, fun hr => hbusy.resolve_right (by simp [hr])⟩
  case isFalse hidle =>
    simp only [not_or, Bool.not_eq_true] at hidle
    split
    case h_1 r _ =>
      refine ⟨h.setData rfl ?_ rfl, ⟨rfl, rfl⟩, by simp⟩
      exact ⟨h.data.pending, h.data.ready, h.data.copy, fun _ => hidle.1, h.data.blockedSend,
        h.data.blockedRecv⟩
    case h_2 =>
      refine ⟨h.setData rfl ?_ rfl, ⟨rfl, rfl⟩, fun _ => rfl⟩
      exact ⟨h.data.pending, h.data.ready, h.data.copy, fun hr => by simp [hidle.2] at hr,
        h.data.blockedSend, fun _ => rfl⟩

theorem Held.recvReturn {c : Recv} (h : Held s₀ t s) (hready : s.streams.recvReady = true) :
    Stops ok s₀ t (recvReturn t c) s := by
  have hsubtask := h.data.recvReady hready
  simp only [Udp.recvReturn, getStreams, wp_bind, wp_get, wp_pure, wp_require, hready, hsubtask]
  refine ⟨fun _ => ⟨fun _ => wp_modify.mpr ?_, by simp⟩, by simp⟩
  have h₁ : Held s₀ t { s with
      streams := { s.streams with recvReady := false }
      receipts := s.receipts ++ [.consumed c.id s.streams.recvResult] } :=
    h.setData rfl ⟨h.data.pending, h.data.ready, h.data.copy, (by simp), h.data.blockedSend,
      h.data.blockedRecv⟩ rfl
  split
  case h_1 => exact Held.leave h₁ _ _
  case h_2 => exact Held.leave h₁ _ _

variable {Q : PUnit → State T → Prop} {k : Nat} {c : Send}

theorem Mid.recvEnd {r : RecvResult} (h : Mid s₀ t (role .holding owned none) s)
    (hsubtask : s.streams.recvSubtask = true) (hb : s.streams.blocking .read = false)
    (hQ : ∀ s', Mid s₀ t (role .holding owned none) s' → s'.streams.recvReady = true → Q ⟨⟩ s') :
    Runs ok (recvEnd r) Q s := by
  simp only [Udp.recvEnd, getStreams, modifyStreams, wp_bind, wp_get, wp_pure, wp_require, hsubtask]
  refine ⟨fun _ => hQ _ (h.setData rfl ?_ rfl) rfl, by simp⟩
  exact ⟨h.data.pending, h.data.ready, h.data.copy, fun _ => rfl, h.data.blockedSend,
    fun hr => by simp [hb] at hr⟩

/-- The record of the receives does not matter here. -/
theorem Mid.takeRecv {r : Role} (h : Mid s₀ t r s) (event : Option RecvResult)
    (hQ : ∀ s', Mid s₀ t r s' → s'.streams = s.streams → Q ⟨⟩ s') :
    Runs ok (takeRecv event) Q s := by
  cases event with
  | none => exact hQ s h rfl
  | some r => exact hQ _ (h.act h.inv (fun _ => id) rfl) rfl

/-- A receive ends, and its result is given to the caller. -/
theorem Held.recvFinish {c : Recv} {r : RecvResult} (h : Held s₀ t s)
    (hsubtask : s.streams.recvSubtask = true) (hb : s.streams.blocking .read = false) :
    Stops ok s₀ t (do recvEnd r; Udp.recvReturn t c) s :=
  wp_bind.mpr (h.recvEnd hsubtask hb fun _ h₁ hready => Held.recvReturn h₁ hready)

theorem Held.recvSynced {c : Recv} (h : Held s₀ t s) (hstreaming : s.tag.streaming = true)
    (hb : s.streams.blocking .read = false) : Stops ok s₀ t (recvSynced t c) s := by
  refine wp_bind.mpr (wp_mono (h.recvStart hb) ?_)
  rintro started s₁ ⟨h₁, hsame, hbusy⟩
  simp only [getStreams, wp_bind, wp_get, wp_pure, wp_ite]
  split
  case isTrue => exact Held.leave h₁ _ _
  case isFalse =>
    split
    case isTrue hsubtask =>
      have hb₁ : s₁.streams.blocking .read = false := by rw [hsame.blocking]; exact hb
      split
      case isTrue =>
        exact Held.await h₁ (hsame.tag ▸ hstreaming) hb₁ hsubtask rfl rfl rfl
      case isFalse =>
        split
        case h_1 r _ =>
          refine wp_bind.mpr (h₁.takeRecv (some r) fun s₂ h₂ hsame => ?_)
          exact Held.recvFinish h₂ (hsame ▸ hsubtask) (hsame ▸ hb₁)
        case h_2 => exact Held.leave h₁ _ _
    case isFalse hsubtask =>
      refine Held.recvReturn h₁ ?_
      by_contra hr
      exact hsubtask (hbusy (by simpa using hr))

theorem Mid.recvEnded {c : Recv} {event : Option RecvResult}
    (h : Mid s₀ t (role .holding [.read] none) s) : Stops ok s₀ t (recvEnded t c event) s := by
  have hsubtask : s.streams.recvSubtask = true :=
    h.data.blockedRecv ((h.inv.halves.blocked .read).mpr ⟨t, by simp⟩)
  refine wp_bind.mpr (runs_exit h (by simp) fun h₁ => ?_)
  cases event with
  | none => exact Held.leave h₁ _ _
  | some r => exact Held.recvFinish h₁ hsubtask (by simp [State.exited, State.setStreams])

/-! ## Sending -/

/-- No send is active, and no result is left. -/
structure Quiet (s : State T) : Prop where
  streaming : s.tag.streaming = true
  blocking : s.streams.blocking .write = false
  subtask : s.streams.sendSubtask = none
  ready : s.streams.sendReady = false
  copy : s.streams.copy = false

/-- The data while no send is in progress. -/
theorem Data.idle {st st' : Streams} {sends sends' : List Sent} (h : Data st sends)
    (hsubtask : st'.sendSubtask = none) (hb : st'.blocking .write = false)
    (hcopy : st'.copy = true → st'.sendReady = true)
    (hrecv : (st'.recvReady, st'.recvSubtask, st'.blocking .read) =
      (st.recvReady, st.recvSubtask, st.blocking .read)) : Data st' sends' := by
  simp only [Prod.mk.injEq] at hrecv
  obtain ⟨hrecvReady, hrecvSubtask, hblocking⟩ := hrecv
  constructor
  case pending => simp [hsubtask]
  case ready => exact fun _ => hsubtask
  case copy => exact fun hc => .inr (hcopy hc)
  case recvReady =>
    rw [hrecvReady, hrecvSubtask]
    exact h.recvReady
  case blockedSend => simp [hb]
  case blockedRecv =>
    rw [hblocking, hrecvSubtask]
    exact h.blockedRecv

theorem Held.hostEnd {call : Nat} {data : List UInt8} {fate : Fate} (hk : s.sends[k]? = some ⟨call, data, .pending⟩)
    (hQ : Q ⟨⟩ { s with sends := s.sends.set k ⟨call, data, fate⟩ }) :
    Runs ok (hostEnd k fate) Q s := by
  simp only [Udp.hostEnd, wp_bind, wp_get, hk]
  exact hQ

/-- The send in flight returns. -/
theorem Mid.sendReturned {r : SendResult} (h : Mid s₀ t (role .holding owned none) s)
    (hsubtask : s.streams.sendSubtask.isSome = true) (hb : s.streams.blocking .write = false)
    (hQ : ∀ s', Mid s₀ t (role .holding owned none) s' → Same s s' →
      s'.streams.sendSubtask = none → Q ⟨⟩ s') : Runs ok (sendReturned r) Q s := by
  obtain ⟨k, hk⟩ := Option.isSome_iff_exists.mp hsubtask
  obtain ⟨call, data, hsent⟩ := h.data.pending k hk
  simp only [Udp.sendReturned, getStreams, wp_bind, wp_get, wp_pure, hk]
  refine Held.hostEnd hsent (hQ _ (h.setData rfl ?_ rfl) ⟨rfl, rfl⟩ rfl)
  exact h.data.idle rfl hb (fun _ => rfl) rfl

/-- The result of a send is looked at. -/
theorem Held.resolved {next : M T PUnit} (h : Held s₀ t s)
    (hstreaming : s.tag.streaming = true) (hb : s.streams.blocking .write = false)
    (hsubtask : s.streams.sendSubtask = none)
    (hnext : ∀ s', Held s₀ t s' → Quiet s' → Stops ok s₀ t next s') : Stops ok s₀ t (resolved t c next) s := by
  simp only [Udp.resolved, getStreams, modifyStreams, wp_bind, wp_get, wp_pure, wp_ite]
  split
  case isTrue =>
    have h₁ : Held s₀ t
        { s with streams := { s.streams with copy := false, sendReady := false } } :=
      h.setData rfl (h.data.idle hsubtask hb (by simp) rfl) rfl
    refine wp_modify.mpr ?_
    split
    case h_1 => exact Held.leave h₁ _ _
    case h_2 => exact hnext _ h₁ ⟨hstreaming, hb, hsubtask, rfl, rfl⟩
  case isFalse hready =>
    refine hnext s h ⟨hstreaming, hb, hsubtask, by simpa using hready, ?_⟩
    by_contra hcopy
    rcases h.data.copy (by simpa using hcopy) with hc | hc
    · simp [hsubtask] at hc
    · exact hready hc

theorem Held.sendResolve {own : Bool} {next : M T PUnit} (h : Held s₀ t s)
    (hstreaming : s.tag.streaming = true) (hb : s.streams.blocking .write = false)
    (hnext : ∀ s', Held s₀ t s' → Quiet s' → Stops ok s₀ t next s') :
    Stops ok s₀ t (sendResolve t c own next) s := by
  simp only [Udp.sendResolve, getStreams, wp_bind, wp_get, wp_pure, wp_ite]
  split
  case isTrue hsubtask =>
    split
    case isTrue => exact h.await hstreaming hb hsubtask rfl rfl rfl
    case isFalse =>
      split
      case h_1 r _ =>
        refine wp_bind.mpr (h.sendReturned hsubtask hb fun s₁ h₁ hsame hnone => ?_)
        exact Held.resolved h₁ (hsame.tag ▸ hstreaming)
          ((congrFun hsame.blocking _).trans hb) hnone hnext
      case h_2 => exact h.leave _ _
  case isFalse hsubtask => exact h.resolved hstreaming hb (by simpa using hsubtask) hnext

theorem Held.sent (h : Held s₀ t s) (hstreaming : s.tag.streaming = true)
    (hb : s.streams.blocking .write = false) : Stops ok s₀ t (sent t c) s := by
  simp only [Udp.sent, getStreams, wp_bind, wp_get, wp_pure, wp_ite]
  split
  case isTrue => exact h.sendResolve hstreaming hb fun s₁ h₁ _ => Held.leave h₁ _ _
  case isFalse => exact h.leave _ _

/-- A send has returned at once. -/
theorem Held.sendAnswered {r : SendResult} (h : Held s₀ t s)
    (hstreaming : s.tag.streaming = true) (hb : s.streams.blocking .write = false)
    (hsubtask : s.streams.sendSubtask = none) (hready : s.streams.sendReady = false) :
    Stops ok s₀ t (do sendAnswered r; Udp.sent t c) s := by
  simp only [Udp.sendAnswered, getStreams, modifyStreams, wp_bind, wp_get, wp_pure, wp_require,
    hsubtask, hready]
  refine ⟨fun _ => ⟨fun _ => ?_, by simp⟩, by simp⟩
  exact Held.sent (h.setData rfl (h.data.idle hsubtask hb (fun _ => rfl) rfl) rfl) hstreaming hb

/-- A thread waits for a cancellation, with the socket's lock. -/
theorem Held.parkCancel (h : Held s₀ t s) (hquiet : Quiet s)
    (hk : s.sends[k]? = some ⟨c.id, c.data, .pending⟩) :
    Stops ok s₀ t (park t (.waiting (.cancelSend c k))) s := by
  have h : Mid s₀ t (Phase.waiting (.cancelSend c k)).role s := by
    rw [role_waiting rfl]
    exact h
  exact h.park List.nodup_nil ⟨hk, hquiet.streaming, hquiet.subtask, hquiet.ready, hquiet.copy⟩ nofun

/-- The send with the caller's buffer. -/
theorem Held.issue (h : Held s₀ t s) (hquiet : Quiet s) : Stops ok s₀ t (issue t c) s := by
  simp only [Udp.issue, getStreams, hostSend, wp_bind, wp_get, wp_pure, wp_require, wp_modify,
    hquiet.subtask, hquiet.ready, hquiet.copy]
  refine ⟨fun _ => ⟨fun _ => ⟨fun _ => ?_, by simp⟩, by simp⟩, by simp⟩
  generalize hans : s.env.send = answer
  have h₁ : Held s₀ t { s with sends := s.sends ++
      [⟨c.id, c.data, if answer.isSome then .taken else .pending⟩] } :=
    h.setData rfl (h.data.idle hquiet.subtask hquiet.blocking (by simp [hquiet.copy]) rfl) rfl
  cases answer with
  | some r => exact Held.sendAnswered h₁ hquiet.streaming hquiet.blocking hquiet.subtask hquiet.ready
  | none =>
    refine Held.parkCancel h₁ ⟨hquiet.streaming, hquiet.blocking, hquiet.subtask, hquiet.ready,
      hquiet.copy⟩ ?_
    simp

/-- The send with the copy. -/
theorem Held.resend {answer : Option SendResult} (h : Held s₀ t s) (hquiet : Quiet s) :
    Stops ok s₀ t (resend t c answer) s := by
  simp only [Udp.resend, modifyStreams, hostSend, wp_bind, wp_modify, wp_get, wp_pure]
  cases answer with
  | some r =>
    simp only [Udp.sendAnswered, getStreams, modifyStreams, wp_bind, wp_get, wp_pure, wp_require,
      wp_modify, hquiet.subtask, hquiet.ready]
    refine ⟨fun _ => ⟨fun _ => ?_, by simp⟩, by simp⟩
    refine Held.sent (h.setData rfl (h.data.idle ?_ hquiet.blocking (fun _ => rfl) rfl) rfl)
      hquiet.streaming hquiet.blocking
    rfl
  | none =>
    simp only [wp_bind, wp_modify]
    refine Held.sent (h.setData rfl ⟨?_, ?_, ?_, h.data.recvReady, ?_, h.data.blockedRecv⟩ rfl)
      hquiet.streaming hquiet.blocking
    · intro k hk
      obtain rfl : s.sends.length = k := by simpa using hk
      exact ⟨c.id, c.data, by simp⟩
    · simp [hquiet.ready]
    · exact fun _ => .inl rfl
    · exact fun _ => rfl

theorem Held.sendCancelled (h : Held s₀ t s) (hquiet : Quiet s)
    (hk : s.sends[k]? = some ⟨c.id, c.data, .pending⟩) : Stops ok s₀ t (sendCancelled t c k) s := by
  simp only [Udp.sendCancelled, wp_bind, wp_get]
  split
  case h_1 r _ =>
    refine wp_bind.mpr (Held.hostEnd hk ?_)
    refine Held.sendAnswered (h.setData rfl ?_ rfl) hquiet.streaming hquiet.blocking
      hquiet.subtask hquiet.ready
    exact h.data.idle hquiet.subtask hquiet.blocking (by simp [hquiet.copy]) rfl
  case h_2 =>
    have h₁ : Held s₀ t { s with sends := s.sends.set k ⟨c.id, c.data, .cancelled⟩ } :=
      h.setData rfl (h.data.idle hquiet.subtask hquiet.blocking (by simp [hquiet.copy]) rfl) rfl
    refine wp_bind.mpr (Held.hostEnd hk ?_)
    simp only [wp_bind, wp_get, wp_ite]
    split
    case isTrue => exact Held.leave h₁ _ _
    case isFalse =>
      exact Held.resend h₁
        ⟨hquiet.streaming, hquiet.blocking, hquiet.subtask, hquiet.ready, hquiet.copy⟩

theorem Mid.sendEnded {own : Bool} {event : Option SendResult}
    (h : Mid s₀ t (role .holding [.write] none) s) : Stops ok s₀ t (sendEnded t c own event) s := by
  have hb : s.streams.blocking .write = true :=
    (h.inv.halves.blocked .write).mpr ⟨t, by simp⟩
  have hsubtask := h.data.blockedSend hb
  have hstreaming := h.streaming hb
  refine wp_bind.mpr (runs_exit h (by simp) fun h₁ => ?_)
  have hb₁ : (s.exited .write).streams.blocking .write = false := by
    simp [State.exited, State.setStreams]
  cases event with
  | none => exact Held.leave h₁ _ _
  | some r =>
    refine wp_bind.mpr (Mid.sendReturned h₁ hsubtask hb₁ fun s₂ h₂ hsame hnone => ?_)
    refine Held.resolved h₂ (hsame.tag ▸ hstreaming) ((congrFun hsame.blocking _).trans hb₁) hnone
      fun s₃ h₃ hquiet => ?_
    cases own with
    | true => exact Held.leave h₃ _ _
    | false => exact Held.issue h₃ hquiet

/-! ## Bouncing -/

theorem role_bounced (c : Io) : (Phase.locking (.blocking c.dir) (.bounced c)).role =
    (role .outside [] none).set (.blocking c.dir) .waiting := by
  ext l
  · cases l with
    | object => simp [Phase.role]
    | blocking d =>
      by_cases hd : d = c.dir
      · subst hd; simp [Phase.role, Cont.owned]
      · simp [Phase.role, Cont.owned, hd, Ne.symm hd]
  · rfl
  · rfl

/-- A thread that finds the flag set leaves the socket's lock, and sleeps at
the blocking lock. -/
theorem Held.bounce {c : Io} (h : Held s₀ t s) (hb : s.streams.blocking c.dir = true) :
    Runs ok (lock t (.blocking c.dir) (.bounced c)) (fun got s' => got = false ∧ Ended s₀ t s')
      (s.unlocked .object) := by
  have hunlock := h.inv.halves.unlockObject rfl
  rw [role_set_object] at hunlock
  have hgot : (((s.unlocked .object).lock (.blocking c.dir)).lock t).1 = false :=
    hunlock.bounce_waits hb
  have hsleep := hunlock.bounce (d := c.dir) hb (by simp)
  rw [← role_bounced] at hsleep
  have hmid : Mid s₀ t (Phase.locking (.blocking c.dir) (.bounced c)).role
      ((s.unlocked .object).setLock (.blocking c.dir)
        (((s.unlocked .object).lock (.blocking c.dir)).lock t).2) :=
    h.act (h.inv.act hsleep (fun _ _ _ => ⟨rfl, h.streaming hb⟩) fun _ => rfl)
      (by simp) rfl
  simp only [Udp.lock, Udp.setLock, wp_bind, wp_get, wp_modify, wp_ite, wp_pure, hgot]
  refine ⟨trivial, hmid.park rfl trivial fun d k hp => ?_⟩
  cases hp
  exact (h.flags _ hb).resolve_left (by simp)

theorem Held.synced {c : Io} (h : Held s₀ t s) (hstreaming : s.tag.streaming = true)
    (hb : s.streams.blocking c.dir = false) : Stops ok s₀ t (synced t c) s := by
  cases c with
  | recv c => exact h.recvSynced hstreaming hb
  | send c => exact h.sendResolve hstreaming hb fun s₁ h₁ hquiet => Held.issue h₁ hquiet

theorem Held.transfer {c : Io} (h : Held s₀ t s) : Stops ok s₀ t (transfer t c) s := by
  simp only [Udp.transfer, sync, getStreams, wp_bind, wp_get, wp_pure, wp_ite]
  split
  case isTrue => exact h.leave _ _
  case isFalse hstreaming =>
    split
    case isTrue hb => exact h.synced (by simpa using hstreaming) (by simpa using hb)
    case isFalse hb =>
      split
      case isTrue => exact h.leave _ _
      case isFalse =>
        refine runs_unlock.mpr (wp_mono (h.bounce (by simpa using hb)) ?_)
        rintro _ s₁ ⟨rfl, hgood⟩
        exact hgood

theorem set_outside (d : Dir) :
    (role .outside [] none).set (.blocking d) .outside = role .outside [] none := by
  ext l
  · by_cases hl : l = .blocking d
    · subst hl; simp
    · simp [hl]
  · rfl
  · rfl

theorem not_holding (d d' : Dir) : ((role .outside [] none).set (.blocking d) .waiting).at_
    (.blocking d') ≠ .holding := by
  by_cases hd : d' = d
  · subst hd; simp
  · simp [hd]

/-- A thread that has bounced tries to get the socket's lock again. -/
theorem Mid.bounced {c : Io} (h : Mid s₀ t (role .outside [] none) s) :
    Stops ok s₀ t (do if ← Udp.lock t .object (.retry c) then Udp.transfer t c) s := by
  refine wp_bind.mpr (wp_mono (h.lock rfl List.nodup_nil) ?_)
  intro got s₁ hlocked
  cases got with
  | false => exact hlocked
  | true => exact Held.transfer hlocked.1

/-- A thread that sleeps at a blocking lock is woken. -/
theorem Good.bounced {c : Io} (h : Good s)
    (ht : s.thread t = .locking (.blocking c.dir) (.bounced c))
    (hok : t ∈ (s.lock (.blocking c.dir)).queue → ok .host) :
    Stops ok s t (do if ← Udp.relock t (.blocking c.dir) then acquired t (.bounced c)) s := by
  have hlock := h.inv.halves.locks (.blocking c.dir)
  have hmid := h.mid t
  rw [State.roles, ht, role_bounced] at hmid
  simp only [Udp.relock, Udp.setLock, acquired, Udp.bounced, wp_bind, wp_get, wp_require,
    wp_modify, wp_pure, wp_ite]
  refine ⟨fun hq => ?_, fun hq => hok (not_not.mp hq)⟩
  split
  case isTrue hgot =>
    have hhalves := hmid.inv.halves.bounced (by simp) hq hgot
    rw [Role.set_set, set_outside] at hhalves
    have hmid : Mid s t (role .outside [] none) (s.setLock (.blocking c.dir)
        ((s.lock (.blocking c.dir)).relock t).2.unlock) :=
      hmid.act (hmid.inv.act hhalves (by simp) fun _ => rfl)
        (fun d hat => (not_holding c.dir d hat).elim) rfl
    have hself : (s.setLock (.blocking c.dir) ((s.lock (.blocking c.dir)).relock t).2).unlocked
        (.blocking c.dir) = s.setLock (.blocking c.dir)
        ((s.lock (.blocking c.dir)).relock t).2.unlock := by
      simp [State.unlocked, State.setLock]
    rw [← hself] at hmid
    have hstops : Stops ok s t (do if ← Udp.lock t .object (.retry c) then Udp.transfer t c) _ :=
      hmid.bounced
    simp only [wp_bind, wp_ite, wp_pure] at hstops
    exact runs_unlock.mpr hstops
  case isFalse hgot =>
    have hhalves := hmid.inv.halves.rebounce (by simp) hq (Bool.eq_false_iff.mpr hgot)
    rw [Role.set_set, ← role_bounced] at hhalves
    rw [← role_bounced] at hmid
    have hmid : Mid s t (Phase.locking (.blocking c.dir) (.bounced c)).role
        (s.setLock (.blocking c.dir) ((s.lock (.blocking c.dir)).relock t).2) :=
      hmid.act (hmid.inv.act hhalves (fun d hd hr => absurd hr hd) fun _ => rfl) (fun _ => id)
        rfl
    have hheld := mt hlock.relock_iff.mpr hgot
    push Not at hheld
    have hgood := hmid.park rfl trivial fun d k hp => by
      cases hp
      exact (h.inv.halves.blocked _).mpr hheld
    have hself : (s.setLock (.blocking c.dir) ((s.lock (.blocking c.dir)).relock t).2).parked t
        (.locking (.blocking c.dir) (.bounced c)) =
        s.setLock (.blocking c.dir) ((s.lock (.blocking c.dir)).relock t).2 := by
      simp [State.parked, State.setLock, ← ht]
    rwa [hself] at hgood

end WasiLibc.Udp

import WasiLibc.Udp.Transfers

/-!
# WasiLibc.Udp.Closing

What a step that makes or closes streams keeps, and the calls up to the point
where they receive or send.  Streams are made while there are none, so that
nobody is at a blocking lock; `connect` closes streams, and there the flags
alone do not tell that nobody is.
-/

namespace WasiLibc.Udp

open Futex Wp

variable {T : Threads} {ok : Fault → Prop} {s₀ s : State T} {t : Tid T} {id : Nat} {remote : Bool}

/-! ## Making streams -/

/-- Nobody but the running thread is at a blocking lock, and it is not
either. -/
abbrev Alone (s₀ : State T) (t : Tid T) : Prop :=
  Empty (Function.update s₀.roles t (role .holding [] none))

theorem Held.inside_eq_zero (h : Held s₀ t s) (halone : Alone s₀ t) : s.inside t = 0 := by
  rw [State.inside, Finset.card_eq_zero, Finset.filter_eq_empty_iff]
  rintro u - ⟨hu, hat⟩
  have hout : ∀ d, (s.roles u).at_ (.blocking d) = .outside := by
    intro d
    have := halone u d
    rw [Function.update_of_ne hu] at this
    rwa [State.roles, h.thread]
  simp [hout] at hat

theorem Held.words (h : Held s₀ t s) (halone : Alone s₀ t) (d : Dir) :
    (s.lock (.blocking d)).word = 0 := h.inv.empty_iff.mp halone d

theorem Held.tear (h : Held s₀ t s) (halone : Alone s₀ t) {Q : PUnit → State T → Prop}
    (hQ : ∀ torn, Held s₀ t { s with torn := torn } → Q ⟨⟩ { s with torn := torn }) :
    Runs ok (tear t) Q s := by
  refine hQ _ ⟨h.inv, h.flags, h.data, h.formed, fun _ hu => h.alone rfl hu, h.thread, ?_⟩
  intro z hz
  cases hz with
  | head => exact ⟨h.words halone _, h.words halone _, h.inside_eq_zero halone⟩
  | tail _ hmem => exact h.clean z hmem

/-- Zeroing does not change the locks of blocking calls where nobody is in one. -/
theorem Held.lock_eq (h : Held s₀ t s) (halone : Alone s₀ t) :
    (fun l : LockId => match l with
      | .object => s.lock .object
      | .blocking d => { s.lock (.blocking d) with word := 0 }) = s.lock := by
  funext l
  cases l with
  | object => rfl
  | blocking d => simp only [← h.words halone d]

theorem Held.zeroStreams (h : Held s₀ t s) (halone : Alone s₀ t) {Q : PUnit → State T → Prop}
    (hQ : ∀ s', Held s₀ t s' → s'.tag = s.tag → Q ⟨⟩ s') : Runs ok (zeroStreams t) Q s := by
  refine wp_bind.mpr (h.tear halone fun torn h₁ => wp_modify.mpr (hQ _ ?_ rfl))
  have hblocking : s.streams.blocking = fun _ => false := by
    funext d
    by_contra hb
    obtain ⟨u, hu⟩ := (h.inv.halves.blocked d).mp (by simpa [State.halves] using hb)
    rw [halone u d] at hu
    cases hu
  have hhalves : (⟨_, fun _ => false⟩ : Halves T) = s.halves :=
    congr (congrArg Halves.mk (h.lock_eq halone)) hblocking.symm
  refine ⟨?_, (by intros; contradiction), data_zero _, h₁.formed, fun _ hu => h₁.alone rfl hu, h₁.thread, h₁.clean⟩
  have hinv := h.inv
  rw [← hhalves] at hinv
  exact hinv

variable {Q : Except Errno Unit → State T → Prop}

theorem Held.createStreams (h : Held s₀ t s) (halone : Alone s₀ t)
    (htag : s.tag = .boundNostreams)
    (hQ : ∀ r s', Held s₀ t s' → (r = .ok () → s'.tag.streaming = true) → Q r s') :
    Runs ok (createStreams t remote) Q s := by
  simp only [Udp.createStreams, wp_bind, wp_get, wp_require, htag]
  refine ⟨fun _ => ?_, by simp⟩
  refine h.zeroStreams halone fun s₁ h₁ htag₁ => ?_
  have hopen : ∀ tag : Tag, Held s₀ t { s₁ with tag := tag } := by
    intro tag
    exact ⟨h₁.inv.setStreaming fun _ => halone, h₁.flags, h₁.data, h₁.formed,
      fun _ hu => h₁.alone rfl hu, h₁.thread, h₁.clean⟩
  cases remote with
  | false => exact hQ _ _ (hopen _) fun _ => rfl
  | true =>
    simp only [if_true, wp_bind, wp_get]
    split
    case h_1 => exact hQ _ _ h₁ (by simp)
    case h_2 => exact hQ _ _ (hopen _) fun _ => rfl

/-- A call that needs streams makes them. -/
theorem Held.needStreams (h : Held s₀ t s)
    (hQ : ∀ r s', Held s₀ t s' → (s.tag ≠ .unbound → r = .ok () → s'.tag.streaming = true) →
      Q r s') : Runs ok (needStreams t) Q s := by
  simp only [Udp.needStreams, wp_bind, wp_get, wp_ite]
  split
  case isTrue htag =>
    exact h.createStreams (h.inv.absent (by rw [htag]; rfl)) htag fun r s₁ h₁ hr =>
      hQ r s₁ h₁ fun _ => hr
  case isFalse htag =>
    refine hQ _ _ h fun hbound _ => ?_
    cases hs : s.tag with
    | unbound => exact absurd hs hbound
    | boundNostreams => exact absurd hs htag
    | boundStreaming => rfl
    | connected => rfl

/-- What binding does. -/
structure Bound (s : State T) (r : Except Errno Unit) (s' : State T) : Prop where
  lock : s'.lock = s.lock
  streams : s'.streams = s.streams
  streaming : s'.tag.streaming = s.tag.streaming
  bound : r = .ok () → s'.tag ≠ .unbound

theorem Held.doBind (h : Held s₀ t s)
    (hQ : ∀ r s', Held s₀ t s' → Bound s r s' → Q r s') : Runs ok doBind Q s := by
  simp only [Udp.doBind, wp_bind, wp_get, wp_ite]
  split
  case isTrue => exact hQ _ _ h ⟨rfl, rfl, rfl, by simp⟩
  case isFalse htag =>
    simp only [ne_eq, not_not] at htag
    split
    case h_1 => exact hQ _ _ h ⟨rfl, rfl, rfl, by simp⟩
    case h_2 =>
      refine wp_bind.mpr (wp_modify.mpr (hQ _ _ ?_ ⟨rfl, rfl, by rw [htag]; rfl, by simp⟩))
      exact ⟨h.inv.setStreaming fun _ => h.inv.absent (by rw [htag]; rfl), h.flags, h.data,
        h.formed, fun _ hu => h.alone rfl hu, h.thread, h.clean⟩

theorem Held.needBound (h : Held s₀ t s)
    (hQ : ∀ r s', Held s₀ t s' → Bound s r s' → Q r s') : Runs ok needBound Q s := by
  simp only [Udp.needBound, wp_bind, wp_get, wp_ite]
  split
  case isTrue => exact h.doBind hQ
  case isFalse htag => exact hQ _ _ h ⟨rfl, rfl, rfl, fun _ => htag⟩

/-! ## Receiving and sending -/

theorem Held.recvfrom {a : RecvArgs} (h : Held s₀ t s) : Stops ok s₀ t (recvfrom t id a) s := by
  simp only [Udp.recvfrom, wp_ite]
  split
  case isTrue => exact h.leave _ _
  case isFalse =>
    split
    case h_1 => exact h.leave _ _
    case h_2 =>
      refine wp_bind.mpr (h.needStreams fun r s₁ h₁ _ => ?_)
      cases r with
      | error e => exact Held.leave h₁ _ _
      | ok _ =>
        simp only [wp_bind, wp_get, wp_ite]
        split
        case isTrue => exact Held.leave h₁ _ _
        case isFalse => exact Held.transfer h₁

theorem Held.sendto {a : SendArgs} (h : Held s₀ t s) : Stops ok s₀ t (sendto t id a) s := by
  simp only [Udp.sendto, wp_ite, wp_bind, wp_get]
  split
  case isTrue => exact h.leave _ _
  case isFalse =>
    split
    case h_1 => exact h.leave _ _
    case h_2 =>
      refine wp_bind.mpr (h.needBound fun r s₁ h₁ _ => ?_)
      cases r with
      | error e => exact Held.leave h₁ _ _
      | ok _ =>
        refine wp_bind.mpr (Held.needStreams h₁ fun r s₂ h₂ _ => ?_)
        cases r with
        | error e => exact Held.leave h₂ _ _
        | ok _ =>
          simp only [wp_bind, wp_get, wp_ite]
          split
          case isTrue => exact Held.leave h₂ _ _
          case isFalse => exact Held.transfer h₂

/-! ## Connecting -/

theorem Held.reconnect (h : Held s₀ t s) (halone : Alone s₀ t) (htag : s.tag = .boundNostreams) :
    Stops ok s₀ t (reconnect t id remote) s := by
  refine wp_bind.mpr (h.createStreams halone htag fun r s₁ h₁ _ => ?_)
  cases r <;> exact Held.leave h₁ _ _

theorem Held.closedStreams (h : Held s₀ t s) (halone : Alone s₀ t)
    (hsubtask : s.streams.sendSubtask = none) : Stops ok s₀ t (closedStreams t id remote) s := by
  have hb : s.streams.blocking .write = false := by
    by_contra hb
    have := h.data.blockedSend (by simpa using hb)
    simp [hsubtask] at this
  refine wp_bind.mpr (wp_modify.mpr (wp_bind.mpr (wp_modify.mpr ?_)))
  refine Held.reconnect ?_ halone rfl
  exact ⟨h.inv.setStreaming fun _ => halone, h.flags, h.data.idle hsubtask hb nofun rfl, h.formed,
    fun _ hu => h.alone rfl hu, h.thread, h.clean⟩

/-- A thread that closes the streams waits for the host, with the socket's
lock. -/
theorem Held.parkClosing {w : Wait} (h : Held s₀ t s) (halone : Alone s₀ t)
    (hholds : w.holds = true) (howned : w.owned = []) (hcloses : w.closes = true)
    (hrelies : (Phase.waiting w).Relies s) : Stops ok s₀ t (park t (.waiting w)) s := by
  have hrole : (Phase.waiting w).role = { role .holding [] none with clear := fun _ => true } := by
    ext l
    · cases l <;> simp [Phase.role, role, hholds, howned]
    · rfl
    · simp [Phase.role, hcloses]
  have h : Mid s₀ t (Phase.waiting w).role s := by
    rw [hrole]
    exact h.act (h.inv.setClear fun _ _ => ⟨rfl, halone⟩) (fun _ => id) rfl
  refine h.park ?_ hrelies (by simp)
  show w.owned.Nodup
  simp [howned]

theorem Held.closeSend (h : Held s₀ t s) (halone : Alone s₀ t) :
    Stops ok s₀ t (closeSend t id remote) s := by
  have h₁ : Held s₀ t { s with streams := { s.streams with recvReady := false } } :=
    h.setData rfl ⟨h.data.pending, h.data.ready, h.data.copy, nofun, h.data.blockedSend,
      h.data.blockedRecv⟩ rfl
  simp only [Udp.closeSend, getStreams, modifyStreams, wp_bind, wp_get, wp_pure, wp_ite, wp_modify]
  split
  case isTrue hsubtask =>
    simp only [wp_require]
    refine ⟨fun _ => Held.parkClosing h₁ halone rfl rfl rfl hsubtask, fun hready => ?_⟩
    have := h.data.ready (by simpa using hready)
    simp [this] at hsubtask
  case isFalse hsubtask => exact Held.closedStreams h₁ halone (by simpa using hsubtask)

theorem Held.closeStreams (h : Held s₀ t s) (halone : Alone s₀ t)
    (hr : s.streams.blocking .read = false) (hw : s.streams.blocking .write = false) :
    Stops ok s₀ t (closeStreams t id remote) s := by
  refine wp_bind.mpr (h.tear halone fun torn h₁ => ?_)
  simp only [getStreams, wp_bind, wp_get, wp_pure, wp_require, wp_ite, hr, hw]
  refine ⟨fun _ => ⟨fun _ => ?_, by simp⟩, by simp⟩
  split
  case isTrue hsubtask =>
    refine ⟨fun _ => Held.parkClosing h₁ halone rfl rfl rfl trivial, fun hready => ?_⟩
    rw [h.data.recvReady (by simpa using hready)] at hsubtask
    cases hsubtask
  case isFalse => exact Held.closeSend h₁ halone

theorem Held.recvCancelled (h : Held s₀ t s) (halone : Alone s₀ t) :
    Stops ok s₀ t (recvCancelled t id remote) s := by
  have hb : s.streams.blocking .read = false := by
    by_contra hb
    obtain ⟨u, hu⟩ := (h.inv.halves.blocked .read).mp (by simpa [State.halves] using hb)
    rw [halone u .read] at hu
    cases hu
  refine wp_bind.mpr (wp_modify.mpr (Held.closeSend (h.setData rfl ?_ rfl) halone))
  exact ⟨h.data.pending, h.data.ready, h.data.copy, fun _ => rfl, h.data.blockedSend,
    fun hr => by simp [hb] at hr⟩

theorem Held.sendClosed (h : Held s₀ t s) (halone : Alone s₀ t)
    (hsubtask : s.streams.sendSubtask.isSome = true) (hok : ok .host) :
    Stops ok s₀ t (sendClosed t id remote) s := by
  have hb : s.streams.blocking .write = false := by
    by_contra hb
    obtain ⟨u, hu⟩ := (h.inv.halves.blocked .write).mp (by simpa [State.halves] using hb)
    rw [halone u .write] at hu
    cases hu
  simp only [Udp.sendClosed, wp_bind, wp_get]
  split
  case h_1 => exact hok
  case h_2 r _ =>
    refine wp_bind.mpr (h.sendReturned hsubtask hb fun s₁ h₁ _ hnone => ?_)
    exact Held.closedStreams h₁ halone hnone

/-- A `connect` closes the streams only when nobody is at a blocking lock. -/
def State.CloseSafe (s : State T) : Prop :=
  s.tag.streaming = true → s.streams.blocking .read = false → s.streams.blocking .write = false →
    ∀ d, (s.lock (.blocking d)).word = 0

theorem Held.connect {remote : Except Errno Bool} (h : Held s₀ t s)
    (hsafe : ∀ b, remote = .ok b → s.CloseSafe) : Stops ok s₀ t (connect t id remote) s := by
  cases remote with
  | error e => exact h.leave _ _
  | ok b =>
    refine wp_bind.mpr (h.needBound fun r s₁ h₁ hbound => ?_)
    cases r with
    | error e => exact Held.leave h₁ _ _
    | ok _ =>
      simp only [getStreams, wp_bind, wp_get, wp_pure, wp_ite]
      split
      case isTrue hstreaming =>
        split
        case isTrue => exact Held.leave h₁ _ _
        case isFalse hflags =>
          simp only [not_or, Bool.not_eq_true] at hflags
          refine Held.closeStreams h₁ (h₁.inv.empty_iff.mpr fun d => ?_) hflags.1 hflags.2
          have hword := hsafe b rfl (hbound.streaming ▸ hstreaming)
            (hbound.streams ▸ hflags.1) (hbound.streams ▸ hflags.2) d
          rw [← hbound.lock] at hword
          exact hword
      case isFalse hstreaming =>
        have hout : s₁.tag.streaming = false := by simpa using hstreaming
        refine Held.reconnect h₁ (h₁.inv.absent hout) ?_
        have hbound := hbound.bound rfl
        cases htag : s₁.tag with
        | boundNostreams => rfl
        | unbound => exact absurd htag hbound
        | boundStreaming => simp [htag, Tag.streaming] at hout
        | connected => simp [htag, Tag.streaming] at hout

end WasiLibc.Udp

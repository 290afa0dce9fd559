import WasiLibc.Object.Transfers

/-!
# WasiLibc.Object.Closing

What a step of `shutdown` or `lseek` does to locks, flags and counters.

A half is found unused before it is closed, and it stays so while the thread
holds the object's lock.  `wasip3_write_state_close` gives the lock up when
data has to be flushed; only then can a thread begin to bounce on a state that
is to be zeroed.
-/

namespace WasiLibc.Object

open Futex Wp

variable {T : Threads} {s₀ s : State T} {t : Tid T} {may : Dir → Prop} {after : After}

/-- Neither blocked nor waited for. -/
def State.Unused (s : State T) (d : Dir) : Prop :=
  (s.world d).io.blocked = false ∧ s.waiters d = 0

theorem Held.closed (h : Held s₀ t may s) (after : After) : Stops s₀ t may (closed t after) s := by
  cases after with
  | shutdown => exact h.leave _
  | seek offset => exact wp_bind.mpr (wp_modify.mpr (Held.leave (h.same (by rfl) (by rfl)) _))

theorem Held.closeFlushed (h : Held s₀ t may s) (hw : s.Unused .write) :
    Stops s₀ t may (closeFlushed t after) s := by
  simp only [Object.closeFlushed, getIo, wp_bind, wp_get, wp_pure, wp_ite]
  split
  case isTrue hprogress =>
    refine h.park rfl rfl (fun d hd => ?_) fun hc => ?_
    · cases d with
      | read => cases hd
      | write => exact hw
    · have := h.calm hc .write
      rw [hprogress] at this
      cases this
  case isFalse => exact runs_zeroState h hw.1 hw.2 fun s₁ h₁ _ _ _ => Held.closed h₁ after

theorem Held.writeStateClose (h : Held s₀ t may s) (hw : s.Unused .write) :
    Stops s₀ t may (writeStateClose t after) s := by
  simp only [Object.writeStateClose, getIo, wp_bind, wp_get, wp_pure, wp_ite]
  split
  case isTrue hprogress =>
    refine h.awaitPending hw.1 (fun _ => .inr hw.2) fun hc => ?_
    have := h.calm hc .write
    rw [hprogress.1] at this
    cases this
  case isFalse => exact h.closeFlushed hw

theorem Held.closeWrite {wanted : Bool} (h : Held s₀ t may s)
    (hw : wanted = true → s.Unused .write) : Stops s₀ t may (closeWrite t wanted after) s := by
  cases wanted with
  | true => exact h.writeStateClose (hw rfl)
  | false => exact h.closed after

variable {write : Bool} {offset : Int} {whence : Whence}

/-- The read half is zeroed, and then the write half is closed. -/
theorem Held.zeroRead (h : Held s₀ t may s) (hr : s.Unused .read)
    (hw : write = true → s.Unused .write) :
    Stops s₀ t may (do zeroState t .read; Object.closeWrite t write after) s := by
  refine wp_bind.mpr (runs_zeroState h hr.1 hr.2 fun s₁ h₁ _ hothers hwaiters => ?_)
  refine Held.closeWrite h₁ fun hwrite => ?_
  rw [State.Unused, hothers .write (by simp), hwaiters]
  exact hw hwrite

theorem Held.readStateClose (h : Held s₀ t may s) (hr : s.Unused .read)
    (hw : write = true → s.Unused .write) :
    Stops s₀ t may (readStateClose t write after) s := by
  simp only [Object.readStateClose, getIo, wp_bind, wp_get, wp_pure, wp_ite]
  split
  case isTrue hprogress =>
    refine h.park rfl rfl (fun d hd => ?_) fun hc => ?_
    · cases d with
      | read => exact hr
      | write => exact hw hd
    · have := h.calm hc .read
      rw [hprogress] at this
      cases this
  case isFalse => exact wp_bind.mp (h.zeroRead hr hw)

theorem Same.unused {s' : State T} {d : Dir} (h : Same s s') (hd : s.Unused d) : s'.Unused d := by
  rw [State.Unused, h.blocked, h.waiters]
  exact hd

theorem Held.cancelRead (h : Held s₀ t may s) (hr : s.Unused .read)
    (hw : write = true → s.Unused .write) : Stops s₀ t may (cancelRead t write after) s := by
  refine wp_bind.mpr (runs_onEnd h (Stream.keeps_streamCancel Stream.outside_usage).shared
    (fun _ => Stream.keeps_streamCancel Stream.outside_usage) fun _ s₁ h₁ hsame => ?_)
  exact Held.zeroRead h₁ (hsame.unused hr) fun hwrite => hsame.unused (hw hwrite)

theorem Held.cancelWrite (h : Held s₀ t may s) (hw : s.Unused .write) :
    Stops s₀ t may (cancelWrite t after) s := by
  refine wp_bind.mpr (runs_onEnd h (Stream.keeps_streamCancel Stream.outside_usage).shared
    (fun _ => Stream.keeps_streamCancel Stream.outside_usage) fun _ s₁ h₁ hsame => ?_)
  have hw₁ := hsame.unused hw
  exact wp_bind.mpr (runs_zeroState h₁ hw₁.1 hw₁.2 fun s₂ h₂ _ _ _ => Held.closed h₂ after)

/-! ## The calls -/

theorem runs_ioStateBlocked {d : Dir} {Q : Bool → State T → Prop}
    (hQ : ∀ b, (b = false → s.Unused d) → Q b s) : Runs (ioStateBlocked d) Q s := by
  refine hQ _ fun hb => ?_
  simp only [Bool.or_eq_false_iff, decide_eq_false_iff_not, Nat.not_lt, Nat.le_zero] at hb
  exact hb

theorem Held.shutdown {how : How} (h : Held s₀ t may s) :
    Stops s₀ t may (shutdown t how) s := by
  simp only [Object.shutdown, wp_bind, wp_ite]
  refine runs_ioStateBlocked fun blockedRead hr => runs_ioStateBlocked fun blockedWrite hw => ?_
  split
  case isTrue => exact h.leave _
  case isFalse hopen =>
    have hwrite : decide (how = .shutWr ∨ how = .shutRdwr) = true → s.Unused .write := by
      intro hsend
      refine hw (Bool.eq_false_iff.mpr fun hblocked => hopen (.inr ⟨?_, hblocked⟩))
      exact of_decide_eq_true hsend
    split
    case isTrue hreceive =>
      refine h.readStateClose (hr ?_) hwrite
      exact Bool.eq_false_iff.mpr fun hblocked => hopen (.inl ⟨hreceive, hblocked⟩)
    case isFalse => exact h.closeWrite hwrite

theorem Held.seekFrom (h : Held s₀ t may s)
    (hr : s.Unused .read) (hw : s.Unused .write) :
    Stops s₀ t may (seekFrom t offset whence) s := by
  simp only [Object.seekFrom, wp_bind, wp_get]
  split
  case h_1 => exact h.leave _
  case h_2 result _ =>
    simp only [wp_ite]
    split
    case isTrue => exact h.leave _
    case isFalse =>
      split
      case isTrue => exact h.readStateClose hr fun _ => hw
      case isFalse => exact h.leave _

theorem Held.seek (h : Held s₀ t may s) :
    Stops s₀ t may (seek t offset whence) s := by
  simp only [Object.seek, wp_bind, wp_get, wp_ite]
  refine runs_ioStateBlocked fun blockedRead hr => runs_ioStateBlocked fun blockedWrite hw => ?_
  split
  case isTrue => exact h.leave _
  case isFalse hopen =>
    have hr := hr (Bool.eq_false_iff.mpr fun hblocked => hopen (.inl hblocked))
    have hw := hw (Bool.eq_false_iff.mpr fun hblocked => hopen (.inr hblocked))
    split
    case isTrue =>
      refine h.park rfl rfl (fun d _ => ?_) fun _ => trivial
      cases d with
      | read => exact hr
      | write => exact hw
    case isFalse => exact h.seekFrom hr hw

theorem Held.stat (h : Held s₀ t may s)
    (hr : s.Unused .read) (hw : s.Unused .write) : Stops s₀ t may (stat t offset whence) s := by
  simp only [Object.stat, wp_bind, wp_get]
  split
  case h_1 => exact h.leave _
  case h_2 size _ =>
    exact wp_bind.mpr (wp_modify.mpr (Held.seekFrom (h.same (by rfl) (by rfl)) hr hw))

/-! ## After a flush -/

theorem runs_closed (after : After) : Runs (closed t after) (fun _ s' =>
    s'.thread = Function.update s.thread t .idle ∧ s'.zeroed = s.zeroed ∧
      s'.waiters = s.waiters ∧ s'.kind = s.kind) s := by
  cases after <;> exact ⟨rfl, rfl, rfl, rfl⟩

/-- The thread that has flushed the write half zeroes it, although somebody
bounces on it. -/
theorem Held.zeroBounced (h : Held s₀ t may s) (hflush : (s₀.thread t).Flushes)
    (hwaiters : s.waiters .write = s₀.waiters .write) (hpos : 0 < s₀.waiters .write) :
    Stops s₀ t may (do zeroState t .write; Object.closed t after) s := by
  refine wp_bind.mpr (wp_modify.mpr (wp_mono (runs_closed after) ?_))
  rintro _ s₁ ⟨hthread, hzeroed, hwaiters₁, hkind⟩
  generalize hz : (⟨.write, (s.lock (.blocking .write)).word, s.waiters .write,
    s.users t .write⟩ : Zeroed) = z at hzeroed
  have hdirty : ¬ z.Clean := by
    rw [← hz]
    intro hc
    have hzero : s.waiters .write = 0 := hc.2.1
    omega
  obtain ⟨new, hnew, hclean⟩ := h.log
  refine ⟨⟨z :: new, by simp [hzeroed, hnew], ?_⟩, ?_, fun u hu => ?_, fun d hd => ?_, ?_,
    hkind.trans h.kind⟩
  · intro z' hz'
    cases hz' with
    | head => exact .inr ⟨hflush, by rw [← hz], hdirty, hpos⟩
    | tail _ hmem => exact .inl (hclean z' hmem)
  · intro hall
    exact absurd (hall z (by simp [hzeroed])) hdirty
  · simp [hthread, hu, h.thread]
  · refine h.waiters d (hd.trans_le ?_)
    rw [hwaiters₁]
    by_cases hne : d = .write
    · subst hne; simp
    · simp [hne]
  · intro hf
    simp [hthread, Phase.Flushes] at hf

theorem Held.closeEnd (h : Held s₀ t may s) (hflush : (s₀.thread t).Flushes)
    (hb : (s.world .write).io.blocked = false)
    (hwaiters : s.waiters .write = s₀.waiters .write)
    (hprogress : (s.world .write).io.inprogress = false) :
    Stops s₀ t may (Object.closeFlushed t after) s := by
  by_cases hw : s.waiters .write = 0
  · exact h.closeFlushed ⟨hb, hw⟩
  · simp only [Object.closeFlushed, getIo, wp_bind, wp_get, wp_pure, wp_ite, hprogress]
    exact wp_bind.mp (h.zeroBounced hflush hwaiters (by omega))

/-- The wait for an operation in progress is over. -/
theorem Mid.pendingEnd {p : Pending} {event : Option Status}
    (h : Mid s₀ t may (role .holding [p.dir] none) s)
    (hwaiters : s.waiters = s₀.waiters)
    (hflush : (Phase.waiting (.pending p)).Flushes → (s₀.thread t).Flushes) (hcalm : ¬ Calm s₀) :
    Stops s₀ t may (pendingEnd t p event) s := by
  refine wp_bind.mpr (runs_exit h (by simp) fun h₁ => ?_)
  have hb : ((s.exited p.dir).world p.dir).io.blocked = false := by
    simp [State.exited, State.setIo_io]
  split
  case h_1 => exact Held.leave h₁ _
  case h_2 => simp
  case h_3 c event =>
    cases hd : c.dir with
    | read =>
      refine wp_bind.mpr (runs_onEnd h₁ (Stream.keeps_ioUpdateCode Stream.flags_shared event)
        (fun hc => absurd hc hcalm) fun n s₂ h₂ hsame => ?_)
      refine wp_bind.mpr (runs_modifyIo h₂ (fun s₃ h₃ hsame' => ?_) fun _ => rfl)
      refine Held.transferReady h₃ ?_ (by simp [State.isOpen, h₃.tcp hcalm])
      rw [hsame'.blocked, hsame.blocked]
      exact hb
    | write =>
      refine wp_bind.mpr (runs_onEnd h₁ (Stream.keeps_advancePendingWrite event)
        (fun hc => absurd hc hcalm) fun done s₂ h₂ hsame => ?_)
      have hb₂ := (hsame.blocked _).trans hb
      cases done with
      | true => exact Held.transferReady h₂ hb₂ (by simp [State.isOpen, h₂.tcp hcalm])
      | false => exact Held.awaitPending h₂ hb₂ False.elim hcalm
  case h_4 after event =>
    refine wp_bind.mpr (runs_onEnd h₁ (Stream.keeps_advancePendingWrite event)
      (fun hc => absurd hc hcalm) fun done s₂ h₂ hsame => ?_)
    have hb₂ : (s₂.world .write).io.blocked = false := (hsame.blocked _).trans hb
    cases done with
    | true =>
      simp only [getIo, wp_bind, wp_get, wp_pure, wp_require, if_true]
      refine ⟨fun hprogress => ?_, fun _ => by simp⟩
      refine Held.closeEnd h₂ (hflush trivial) hb₂ ?_ (by simpa using hprogress)
      exact (congrFun hsame.waiters _).trans (congrFun hwaiters _)
    | false => exact Held.awaitPending h₂ hb₂ (fun _ => .inl (hflush trivial)) hcalm

end WasiLibc.Object

import WasiLibc.Udp.Closing

/-!
# WasiLibc.Udp.Polling

What a step of `poll` keeps.  A `poll` owns the halves that it has registered,
until the callback of each has been called.
-/

namespace WasiLibc.Udp

open Futex Wp

variable {T : Threads} {ok : Fault → Prop} {s₀ s : State T} {t : Tid T} {id : Nat} {regs : List Dir}

theorem role_congr {x : Standing} {l l' : List Dir} {b : Option Dir} (h : ∀ d, d ∈ l ↔ d ∈ l') :
    role x l b = role x l' b := by
  ext i
  · cases i <;> simp [role, h]
  · rfl
  · rfl

/-- The flag of a half that the thread owns is set. -/
theorem Mid.blocking {x : Standing} {d : Dir} (h : Mid s₀ t (role x regs none) s) (hd : d ∈ regs) :
    s.streams.blocking d = true :=
  (h.inv.halves.blocked d).mpr ⟨t, by simp [hd]⟩

/-! ## Registration -/

/-- What the registration of a half leads to. -/
def Registered (s₀ : State T) (t : Tid T) (r : Except Errno Unit × List Dir) (s : State T) : Prop :=
  Mid s₀ t (role .holding r.2 none) s ∧ r.2.Nodup ∧ s.tag.streaming = true

/-- A half is registered. -/
theorem Mid.register {d : Dir} (h : Mid s₀ t (role .holding regs none) s) (hdup : regs.Nodup)
    (hstreaming : s.tag.streaming = true) (hb : s.streams.blocking d = false)
    (hbusy : s.streams.busy d = true) :
    Runs ok (enterBlocking t d) (fun _ s' => Registered s₀ t (.ok (), regs ++ [d]) s') s := by
  have hnew : d ∉ regs := by
    intro hd
    rw [h.blocking hd] at hb
    cases hb
  refine runs_enter h hnew hstreaming hb hbusy fun h₁ => ⟨h₁, ?_, hstreaming⟩
  exact hdup.append (by simp) (by simpa using hnew)

theorem Mid.pollRecv (h : Mid s₀ t (role .holding regs none) s) (hdup : regs.Nodup)
    (hstreaming : s.tag.streaming = true) : Runs ok (pollRecv t regs) (Registered s₀ t) s := by
  simp only [Udp.pollRecv, getStreams, wp_bind, wp_get, wp_pure, wp_ite]
  split
  case isTrue => exact ⟨h, hdup, hstreaming⟩
  case isFalse hb =>
    have hb : s.streams.blocking .read = false := by simpa using hb
    refine wp_mono (h.recvStart hb) ?_
    rintro _ s₁ ⟨h₁, hsame, hbusy⟩
    have hstreaming₁ : s₁.tag.streaming = true := hsame.tag ▸ hstreaming
    split
    case isTrue => exact ⟨h₁, hdup, hstreaming₁⟩
    case isFalse hready =>
      have hsubtask := hbusy (by simpa using hready)
      refine wp_require.mpr ⟨fun _ => ?_, fun hn => absurd hsubtask hn⟩
      split
      case isTrue =>
        exact h₁.register hdup hstreaming₁ ((congrFun hsame.blocking _).trans hb) hsubtask
      case isFalse => exact ⟨h₁, hdup, hstreaming₁⟩

theorem Mid.pollSend (h : Mid s₀ t (role .holding regs none) s) (hdup : regs.Nodup)
    (hstreaming : s.tag.streaming = true) : Runs ok (pollSend t regs) (Registered s₀ t) s := by
  simp only [Udp.pollSend, getStreams, wp_bind, wp_get, wp_pure, wp_ite]
  split
  case isTrue => exact ⟨h, hdup, hstreaming⟩
  case isFalse hb =>
    split
    case isTrue hsubtask =>
      split
      case isTrue => exact h.register hdup hstreaming (by simpa using hb) hsubtask
      case isFalse => exact ⟨h, hdup, hstreaming⟩
    case isFalse => exact ⟨h, hdup, hstreaming⟩

theorem Registered.pollSendIf {ev : Events} {r : Except Errno Unit × List Dir}
    (h : Registered s₀ t r s) :
    Runs ok (match r.1 with
      | .error e => return (.error e, r.2)
      | .ok _ => if ev.wrnorm then Udp.pollSend t r.2 else return (.ok (), r.2))
      (Registered s₀ t) s := by
  obtain ⟨result, regs⟩ := r
  cases result with
  | error e => exact h
  | ok _ =>
    simp only [wp_ite]
    split
    case isTrue => exact h.1.pollSend h.2.1 h.2.2
    case isFalse => exact h

theorem Mid.pollStreams {ev : Events} (h : Mid s₀ t (role .holding regs none) s)
    (hdup : regs.Nodup) (hstreaming : s.tag.streaming = true) :
    Runs ok (pollStreams t ev regs) (Registered s₀ t) s := by
  simp only [Udp.pollStreams, wp_ite, wp_bind, wp_pure]
  split
  case isTrue =>
    refine wp_mono (h.pollRecv hdup hstreaming) ?_
    rintro r s₁ h₁
    exact h₁.pollSendIf
  case isFalse =>
    split
    case isTrue => exact h.pollSend hdup hstreaming
    case isFalse => exact ⟨h, hdup, hstreaming⟩

/-- The streams are there, or are made. -/
theorem Mid.needStreams (h : Mid s₀ t (role .holding regs none) s) (hbound : s.tag ≠ .unbound)
    {Q : Except Errno Unit → State T → Prop}
    (hQ : ∀ r s', Mid s₀ t (role .holding regs none) s' →
      (r = .ok () → s'.tag.streaming = true) → Q r s') : Runs ok (needStreams t) Q s := by
  cases regs with
  | nil => exact Held.needStreams h fun r s₁ h₁ hr => hQ r s₁ h₁ (hr hbound)
  | cons d regs =>
    have hstreaming := h.streaming (h.blocking (d := d) (by simp))
    simp only [Udp.needStreams, wp_bind, wp_get, wp_ite]
    split
    case isTrue htag =>
      rw [htag] at hstreaming
      cases hstreaming
    case isFalse => exact hQ _ _ h fun _ => hstreaming

theorem Mid.pollRegister {ev : Events} (h : Mid s₀ t (role .holding regs none) s)
    (hdup : regs.Nodup) :
    Runs ok (pollRegister t ev regs) (fun r s' =>
      Mid s₀ t (role .outside r.2 none) s' ∧ r.2.Nodup) s := by
  simp only [Udp.pollRegister, wp_bind, wp_get, wp_ite]
  split
  case isTrue => exact ⟨h.unlockObject, hdup⟩
  case isFalse hbound =>
    refine h.needStreams hbound fun r s₁ h₁ hr => ?_
    cases r with
    | error e => exact ⟨h₁.unlockObject, hdup⟩
    | ok _ =>
      refine wp_bind.mpr (wp_mono (h₁.pollStreams hdup (hr rfl)) ?_)
      rintro r s₂ ⟨h₂, hdup₂, _⟩
      exact ⟨h₂.unlockObject, hdup₂⟩

/-! ## The end of the call -/

theorem Mid.pollCancelled {d : Dir} (h : Mid s₀ t (role .holding (d :: regs) none) s)
    (hd : d ∉ regs) :
    Runs ok (pollCancelled d) (fun _ s' => Mid s₀ t (role .outside regs none) s') s :=
  wp_bind.mpr (runs_exit h hd fun h₁ => h₁.unlockObject)

theorem Mid.pollCleanup (result : Except Errno Unit) (regs : List Dir) (s : State T)
    (h : Mid s₀ t (role .outside regs none) s) (hdup : regs.Nodup) :
    Stops ok s₀ t (pollCleanup t id result regs) s := by
  induction regs generalizing s with
  | nil => exact h.finish _ _
  | cons d regs ih =>
    obtain ⟨hd, hdup'⟩ := List.nodup_cons.mp hdup
    refine wp_bind.mpr (wp_mono (h.lock rfl hdup) ?_)
    intro got s₁ hlocked
    cases got with
    | false => exact hlocked
    | true =>
      refine wp_bind.mpr (wp_mono (hlocked.1.pollCancelled hd) ?_)
      intro _ s₂ h₂
      exact ih s₂ h₂ hdup'

/-! ## The loop -/

theorem Mid.parkPolling (h : Mid s₀ t (role .outside regs none) s) (hdup : regs.Nodup) :
    Stops ok s₀ t (Udp.park t (.waiting (.polling id regs))) s := by
  have h : Mid s₀ t (Phase.waiting (.polling id regs)).role s := by
    rw [role_waiting rfl]
    exact h
  exact h.park hdup trivial nofun

/-- An entry has been registered, or not. -/
theorem Mid.pollRegistered {next : List Dir → M T PUnit} {r : Except Errno Unit × List Dir}
    (h : Mid s₀ t (role .outside r.2 none) s) (hdup : r.2.Nodup) (hnext : Stops ok s₀ t (next r.2) s) :
    Stops ok s₀ t (pollRegistered t id next r) s := by
  obtain ⟨result, regs⟩ := r
  cases result with
  | ok _ => exact hnext
  | error e => exact Mid.pollCleanup _ regs s h hdup

theorem Mid.pollLoop (todo : List Events) (regs : List Dir) (s : State T)
    (h : Mid s₀ t (role .outside regs none) s) (hdup : regs.Nodup) :
    Stops ok s₀ t (pollLoop t id todo regs) s := by
  induction todo generalizing regs s with
  | nil => exact h.parkPolling hdup
  | cons ev todo ih =>
    refine wp_bind.mpr (wp_mono (h.lock rfl ⟨by simp, hdup⟩) ?_)
    intro got s₁ hlocked
    cases got with
    | false => exact hlocked
    | true =>
      refine wp_bind.mpr (wp_mono (hlocked.1.pollRegister hdup) ?_)
      rintro r s₂ ⟨h₂, hdup₂⟩
      exact h₂.pollRegistered hdup₂ (ih r.2 s₂ h₂ hdup₂)

theorem Mid.pollResumed {todo : List Events} (h : Mid s₀ t (role .holding regs none) s)
    (htodo : todo ≠ []) (hdup : regs.Nodup) : Stops ok s₀ t (pollResumed t id todo regs) s := by
  cases todo with
  | nil => exact absurd rfl htodo
  | cons ev todo =>
    refine wp_bind.mpr (wp_mono (h.pollRegister hdup) ?_)
    rintro r s₁ ⟨h₁, hdup₁⟩
    exact h₁.pollRegistered hdup₁ (Mid.pollLoop todo r.2 s₁ h₁ hdup₁)

/-! ## Events -/

theorem Mid.pollReady {event : Event} (h : Mid s₀ t (role .holding (event.dir :: regs) none) s)
    (hdup : (event.dir :: regs).Nodup) : Stops ok s₀ t (pollReady t id event regs) s := by
  obtain ⟨hd, hdup'⟩ := List.nodup_cons.mp hdup
  have hb := h.blocking (d := event.dir) (by simp)
  refine wp_bind.mpr (runs_exit h hd fun h₁ => ?_)
  cases event with
  | recv r =>
    refine wp_bind.mpr (h₁.recvEnd (h.data.blockedRecv hb)
      (by simp [State.exited, State.setStreams, Event.dir]) fun s₂ h₂ _ => ?_)
    exact wp_bind.mpr (runs_unlock.mpr (h₂.unlockObject.parkPolling hdup'))
  | send r =>
    have hsubtask := h.data.blockedSend hb
    refine wp_bind.mpr (wp_bind.mpr (wp_get.mpr (wp_pure _ |>.mpr (wp_bind.mpr ?_))))
    refine wp_require.mpr ⟨fun _ => ?_, fun hready => ?_⟩
    · refine wp_bind.mpr (h₁.sendReturned hsubtask
        (by simp [State.exited, State.setStreams, Event.dir]) fun s₂ h₂ _ _ => ?_)
      exact wp_bind.mpr (runs_unlock.mpr (h₂.unlockObject.parkPolling hdup'))
    · have := h₁.data.ready (by simpa using hready)
      have hsub : (s.exited (Event.send r).dir).streams.sendSubtask = s.streams.sendSubtask := rfl
      rw [hsub] at this
      simp [this] at hsubtask

theorem Mid.polling (h : Mid s₀ t (role .outside regs none) s) (hdup : regs.Nodup)
    (hok : ok .host) :
    Stops ok s₀ t (polling t id regs) s := by
  simp only [Udp.polling, wp_bind, wp_get]
  split
  case h_1 => exact Mid.pollCleanup _ regs s h hdup
  case h_2 d _ =>
    simp only [wp_bind, wp_require, wp_get]
    refine ⟨fun hd => ?_, fun _ => hok⟩
    cases hevent : s.env.pollEvent d with
    | none => exact hok
    | some event =>
      have hdir : event.dir = d := by
        cases d with
        | read =>
          obtain ⟨r, _, rfl⟩ := Option.map_eq_some_iff.mp hevent
          rfl
        | write =>
          obtain ⟨r, _, rfl⟩ := Option.map_eq_some_iff.mp hevent
          rfl
      subst hdir
      have hrole : role .outside regs none =
          role .outside (event.dir :: regs.erase event.dir) none := by
        refine role_congr fun d' => ?_
        by_cases hne : d' = event.dir
        · subst hne; simp [hd]
        · simp [hne, List.mem_erase_of_ne hne]
      have hdup' : (event.dir :: regs.erase event.dir).Nodup :=
        List.nodup_cons.mpr ⟨hdup.not_mem_erase, hdup.erase _⟩
      rw [hrole] at h
      refine wp_bind.mpr (h.takeRecv event.received fun s₁ h₁ _ => ?_)
      refine wp_bind.mpr (wp_mono (h₁.lock rfl hdup') ?_)
      intro got s₂ hlocked
      cases got with
      | false => exact hlocked
      | true => exact hlocked.1.pollReady hdup'

end WasiLibc.Udp

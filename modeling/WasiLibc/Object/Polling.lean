import WasiLibc.Object.Transfers

/-!
# WasiLibc.Object.Polling

What a step of `poll` does to locks, flags and counters.  A `poll` owns the
halves that it has registered, until the callback of each has been called.
-/

namespace WasiLibc.Object

open Futex Wp

variable {T : Threads} {s₀ s : State T} {t : Tid T} {may : Dir → Prop} {regs : List Dir}

theorem role_congr {x : Standing} {l l' : List Dir} {b : Option Dir} (h : ∀ d, d ∈ l ↔ d ∈ l') :
    role x l b = role x l' b := by
  ext i
  · cases i <;> simp [role, h]
  · rfl
  · rfl

/-! ## Registration -/

theorem Mid.streamPoll (h : Mid s₀ t may (role .holding regs none) s) (hdup : regs.Nodup)
    (hcalm : ¬ Calm s₀) (d : Dir) :
    Runs (streamPoll t d regs) (fun r s' =>
      Mid s₀ t may (role .holding r.2 none) s' ∧ r.2.Nodup) s := by
  simp only [Object.streamPoll, getIo, wp_bind, wp_get, wp_pure, wp_ite]
  split
  case isTrue => exact ⟨h, hdup⟩
  case isFalse hb =>
    have hnew : d ∉ regs := by
      intro hd
      exact hb ((h.inv.halves.blocked d).mpr ⟨t, by simp [hd]⟩)
    refine runs_onEnd h (Stream.keeps_streamPollInit _) (fun hc => absurd hc hcalm)
      fun status s₁ h₁ hsame => ?_
    cases status with
    | ready => exact ⟨h₁, hdup⟩
    | error => exact ⟨h₁, hdup⟩
    | inprogress =>
      refine wp_bind.mpr (runs_onEnd h₁ (Stream.keeps_alloc Stream.outside_usage).shared
        (fun hc => absurd hc hcalm) fun got s₂ h₂ hsame' => ?_)
      cases got with
      | false => exact ⟨h₂, hdup⟩
      | true =>
        have hb₂ : (s₂.world d).io.blocked = false := by
          rw [hsame'.blocked, hsame.blocked]
          simpa using hb
        refine wp_bind.mpr (runs_enter h₂ hnew hb₂ (by simp [State.isOpen, h₂.tcp hcalm])
          fun h₃ => ⟨h₃, ?_⟩)
        exact hdup.append (by simp) (by simpa using hnew)

/-- A half that the entry may ask for, and what follows. -/
theorem Mid.streamPoll_bind {α : Type} {k : Except Errno Unit × List Dir → M T α}
    {Q : α → State T → Prop} (h : Mid s₀ t may (role .holding regs none) s) (hdup : regs.Nodup)
    (hcalm : ¬ Calm s₀) (wanted : Bool) (d : Dir)
    (hk : ∀ r s', Mid s₀ t may (role .holding r.2 none) s' → r.2.Nodup → Runs (k r) Q s') :
    Runs (if wanted then Object.streamPoll t d regs >>= k else pure (.ok (), regs) >>= k) Q s := by
  cases wanted with
  | true =>
    refine wp_bind.mpr (wp_mono (h.streamPoll hdup hcalm d) ?_)
    rintro r s' ⟨h', hdup'⟩
    exact hk r s' h' hdup'
  | false => exact hk _ s h hdup

theorem Mid.pollRegister (h : Mid s₀ t may (role .holding regs none) s) (hdup : regs.Nodup)
    (hcalm : ¬ Calm s₀) (ev : Events) :
    Runs (pollRegister t ev regs) (fun r s' =>
      Mid s₀ t may (role .outside r.2 none) s' ∧ r.2.Nodup) s := by
  refine h.streamPoll_bind hdup hcalm ev.rdnorm .read ?_
  rintro ⟨result, regs₁⟩ s₁ h₁ hdup₁
  cases result with
  | error e => exact ⟨h₁.unlockObject, hdup₁⟩
  | ok _ =>
    refine h₁.streamPoll_bind hdup₁ hcalm ev.wrnorm .write ?_
    rintro ⟨result, regs₂⟩ s₂ h₂ hdup₂
    exact ⟨h₂.unlockObject, hdup₂⟩

/-! ## The end of the call -/

theorem Mid.pollCancelled {d : Dir} (h : Mid s₀ t may (role .holding (d :: regs) none) s)
    (hd : d ∉ regs) :
    Runs (pollCancelled d) (fun _ s' => Mid s₀ t may (role .outside regs none) s') s :=
  wp_bind.mpr (runs_exit h hd fun h₁ => h₁.unlockObject)

theorem Mid.pollCleanup (result : Except Errno Unit) (regs : List Dir) (s : State T)
    (h : Mid s₀ t may (role .outside regs none) s) (hdup : regs.Nodup) (hcalm : ¬ Calm s₀) :
    Stops s₀ t may (pollCleanup t result regs) s := by
  induction regs generalizing s with
  | nil => exact h.finish _
  | cons d regs ih =>
    obtain ⟨hd, hdup'⟩ := List.nodup_cons.mp hdup
    refine wp_bind.mpr (wp_mono (h.lock rfl rfl ⟨hdup, trivial⟩ False.elim
      fun hc => absurd hc hcalm) ?_)
    intro got s₁ hlocked
    cases got with
    | false => exact hlocked
    | true =>
      refine wp_bind.mpr (wp_mono (hlocked.1.pollCancelled hd) ?_)
      intro _ s₂ h₂
      exact ih s₂ h₂ hdup'

/-! ## The loop -/

theorem Mid.parkPolling (h : Mid s₀ t may (role .outside regs none) s) (hdup : regs.Nodup)
    (hcalm : ¬ Calm s₀) : Stops s₀ t may (Object.park t (.waiting (.polling regs))) s := by
  have h : Mid s₀ t may (Phase.waiting (.polling regs)).role s := by
    rw [role_waiting fun _ => rfl]
    exact h
  exact h.park ⟨hdup, trivial⟩ False.elim fun hc => absurd hc hcalm

/-- An entry has been registered, or not. -/
theorem Mid.pollRegistered {next : List Dir → M T PUnit} {r : Except Errno Unit × List Dir}
    (h : Mid s₀ t may (role .outside r.2 none) s) (hdup : r.2.Nodup) (hcalm : ¬ Calm s₀)
    (hnext : Stops s₀ t may (next r.2) s) : Stops s₀ t may (pollRegistered t next r) s := by
  obtain ⟨result, regs⟩ := r
  cases result with
  | ok _ => exact hnext
  | error e => exact Mid.pollCleanup _ regs s h hdup hcalm

theorem Mid.pollLoop (todo : List Events) (regs : List Dir) (s : State T)
    (h : Mid s₀ t may (role .outside regs none) s) (hdup : regs.Nodup) (hcalm : ¬ Calm s₀) :
    Stops s₀ t may (pollLoop t todo regs) s := by
  induction todo generalizing regs s with
  | nil => exact h.parkPolling hdup hcalm
  | cons ev todo ih =>
    refine wp_bind.mpr (wp_mono (h.lock rfl rfl ⟨hdup, by simp⟩ False.elim
      fun hc => absurd hc hcalm) ?_)
    intro got s₁ hlocked
    cases got with
    | false => exact hlocked
    | true =>
      refine wp_bind.mpr (wp_mono (hlocked.1.pollRegister hdup hcalm ev) ?_)
      rintro r s₂ ⟨h₂, hdup₂⟩
      exact h₂.pollRegistered hdup₂ hcalm (ih r.2 s₂ h₂ hdup₂)

theorem Mid.pollResumed {todo : List Events} (h : Mid s₀ t may (role .holding regs none) s)
    (htodo : todo ≠ []) (hdup : regs.Nodup) (hcalm : ¬ Calm s₀) :
    Stops s₀ t may (pollResumed t todo regs) s := by
  cases todo with
  | nil => exact absurd rfl htodo
  | cons ev todo =>
    refine wp_bind.mpr (wp_mono (h.pollRegister hdup hcalm ev) ?_)
    rintro r s₁ ⟨h₁, hdup₁⟩
    exact h₁.pollRegistered hdup₁ hcalm (Mid.pollLoop todo r.2 s₁ h₁ hdup₁ hcalm)

/-! ## Events -/

theorem Mid.pollReady {d : Dir} {event : Status}
    (h : Mid s₀ t may (role .holding (d :: regs) none) s) (hdup : (d :: regs).Nodup)
    (hcalm : ¬ Calm s₀) : Stops s₀ t may (pollReady t d event regs) s := by
  obtain ⟨hd, hdup'⟩ := List.nodup_cons.mp hdup
  refine wp_bind.mpr (runs_exit h hd fun h₁ => ?_)
  cases d with
  | read =>
    refine wp_bind.mpr (runs_onEnd h₁ (Stream.keeps_ioUpdateCode Stream.flags_shared event)
      (fun hc => absurd hc hcalm) fun n s₂ h₂ _ => ?_)
    refine wp_bind.mpr (runs_modifyIo h₂ (fun s₃ h₃ _ => ?_) fun _ => rfl)
    exact wp_bind.mpr (runs_unlock.mpr (h₃.unlockObject.parkPolling hdup' hcalm))
  | write =>
    refine wp_bind.mpr (runs_onEnd h₁ (Stream.keeps_advancePendingWrite event)
      (fun hc => absurd hc hcalm) fun done s₂ h₂ _ => ?_)
    cases done with
    | true => exact wp_bind.mpr (runs_unlock.mpr (h₂.unlockObject.parkPolling hdup' hcalm))
    | false =>
      refine wp_bind.mpr (wp_bind.mpr (wp_get.mpr (wp_pure _ |>.mpr (wp_bind.mpr ?_))))
      refine wp_require.mpr ⟨fun _ => ?_, fun _ => nofun⟩
      exact wp_bind.mpr (runs_unlock.mpr (h₂.unlockObject.parkPolling hdup' hcalm))

theorem Mid.polling (h : Mid s₀ t may (role .outside regs none) s) (hdup : regs.Nodup)
    (hcalm : ¬ Calm s₀) : Stops s₀ t may (polling t regs) s := by
  simp only [Object.polling, wp_bind, wp_get]
  split
  case h_1 => exact Mid.pollCleanup _ regs s h hdup hcalm
  case h_2 d _ =>
    simp only [wp_bind, wp_require]
    refine ⟨fun hd => ?_, fun _ => by simp⟩
    refine runs_onEnd h (Stream.keeps_pollWaitable Stream.outside_usage).shared
      (fun hc => absurd hc hcalm) fun event s₁ h₁ _ => ?_
    have hrole : role .outside regs none = role .outside (d :: regs.erase d) none := by
      refine role_congr fun d' => ?_
      by_cases hne : d' = d
      · subst hne; simp [hd]
      · simp [hne, List.mem_erase_of_ne hne]
    have hdup' : (d :: regs.erase d).Nodup :=
      List.nodup_cons.mpr ⟨hdup.not_mem_erase, hdup.erase d⟩
    cases event with
    | none => simp
    | some event =>
      rw [hrole] at h₁
      refine wp_bind.mpr (wp_mono (h₁.lock rfl rfl ⟨hdup', trivial⟩ False.elim
        fun hc => absurd hc hcalm) ?_)
      intro got s₂ hlocked
      cases got with
      | false => exact hlocked
      | true => exact hlocked.1.pollReady hdup' hcalm

end WasiLibc.Object

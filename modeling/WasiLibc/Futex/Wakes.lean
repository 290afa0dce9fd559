import WasiLibc.Futex.Waits

/-!
# WasiLibc.Futex.Wakes

The steps of `__wasilibc_futex_wake` keep the invariant, and are steps of the
abstract machine: its first loop takes threads out of the waitlist, its
second one wakes them.
-/

namespace WasiLibc.Futex

open Function Wp

variable {T : Threads} {s s' : State T} {q : Nat → List (Tid T)} {moving : List (Tid T)}
  {leak : Nat → Nat} {t : Tid T} {toWake : Option (Tid T)}

/-- In the middle of a wake: `moving` are the threads taken out of the
waitlist and not woken, in the list `toWake`. -/
structure Dequeuing (s : State T) (q : Nat → List (Tid T)) (moving : List (Tid T))
    (toWake : Option (Tid T)) (leak : Nat → Nat) : Prop where
  linked : Linked s q moving
  counted : Counted s .none leak
  staged : Staged s
  list : DList.IsList s.link toWake moving

/-! ## The first loop -/

variable {id : Nat} {addr : Addr} {c : Nat}

/-- One turn of the first loop. -/
theorem total_dequeueOne (call : Nat) {wl : Waitlist T} {x : Tid T}
    {rest : List (Tid T)} (h : Dequeuing s q moving toWake leak) (hwl : s.waitlist id = some wl)
    (hq : q id = x :: rest) :
    Total (do waitlistRemove id x; recordDequeue call x; listInsert toWake x) (fun r s' =>
      Dequeuing s' (update q id rest) (x :: moving) r leak ∧ s'.standing = s.standing ∧
        s'.callOf = s.callOf ∧ s'.lookup = s.lookup ∧
        s'.history = s.history.dequeueAll call ([x].filterMap s.callOf)) s := by
  have hx : x ∈ q id := hq ▸ List.mem_cons_self
  obtain ⟨huses, hwoken, hmoving⟩ := (h.linked.mem x id).mp hx
  have hL := h.linked.removed hwl hx
  rw [hq, List.erase_cons_head] at hL
  have hC : Counted (s.removed id wl x) .none leak :=
    h.counted.setList hwl _ rfl rfl rfl rfl rfl
  -- the threads taken out before are still linked
  have hlist : DList.IsList (s.removed id wl x).link toWake moving := by
    refine h.list.frame fun u hu => ?_
    refine (h.linked.lists id wl hwl).remove_of_notMem hx fun hmem => ?_
    exact ((h.linked.mem u id).mp hmem).2.2 hu
  have hcall : (s.removed id wl x).callOf = s.callOf := rfl
  obtain ⟨c, hc⟩ : ∃ c, s.callOf x = some c := by
    cases hp : s.thread x with
    | waiting c addr waiters stage => exact ⟨c, by simp [State.callOf, hp]⟩
    | _ => rw [hp] at huses; exact huses.elim
  have hnode : update s.node x { s.node x with woken := false } = s.node := by
    rw [← hwoken, update_eq_self]
  simp only [wp_bind]
  refine (total_waitlistRemove hwl).mpr ?_
  simp only [recordDequeue, wp_bind, wp_get, hcall, hc, total_record, listInsert, wp_modify, wp_pure]
  refine ⟨⟨?_, ?_, ?_, ?_⟩, ?_, rfl, rfl, ?_⟩
  · have hframe := hL.frame_link (DList.insert (s.removed id wl x).link toWake x).1
      { s.node x with woken := false } ?_ List.mem_cons_self
    · exact ⟨hframe.lists, hframe.mem⟩
    · intro u hu
      refine DList.insert_of_ne (fun hux => hu (hux ▸ List.mem_cons_self)) fun hhead => hu ?_
      rw [hlist.head] at hhead
      exact List.mem_cons_of_mem _ (List.mem_of_head? hhead)
  · exact ⟨hC.entry, hC.count, hC.key, hC.fresh, hC.owned⟩
  · exact h.staged.congr rfl hnode rfl rfl
  · exact hlist.insert hmoving
  · funext u
    simp only [State.standing, State.removed, hnode]
  · simp [hc, History.dequeueAll]
    rfl

theorem total_dequeueLoop {call : Nat} (count : Nat)
    (h : Dequeuing s q moving toWake leak) (ha : s.lookup addr = some id) :
    Total (dequeueLoop call id count toWake) (fun r s' => ∃ q',
      Dequeuing s' q' (((q id).take count).reverse ++ moving) r leak ∧
        s'.standing = s.standing ∧ s'.history =
          s.history.dequeueAll call (((q id).take count).filterMap s.callOf)) s := by
  induction count generalizing s q moving toWake with
  | zero => exact ⟨q, by simpa using h, rfl, rfl⟩
  | succ count ih =>
    obtain ⟨wl, hwl, -⟩ := h.counted.count addr id ha
    have hhead := (h.linked.lists id wl hwl).head
    simp only [dequeueLoop, wp_bind]
    refine (total_getWaitlist hwl).mpr ?_
    cases hq : q id with
    | nil =>
      rw [hq] at hhead
      simp only [hhead, List.head?_nil]
      exact ⟨q, by simpa [hq] using h, rfl, rfl⟩
    | cons x rest =>
      rw [hq] at hhead
      simp only [hhead, List.head?_cons]
      have hturn : Total (do waitlistRemove id x; recordDequeue call x; listInsert toWake x)
          (fun r s₁ => Total (dequeueLoop call id count r) (fun r s' => ∃ q',
            Dequeuing s' q' (((x :: rest).take (count + 1)).reverse ++ moving) r leak ∧
              s'.standing = s.standing ∧ s'.history = s.history.dequeueAll call
                (((x :: rest).take (count + 1)).filterMap s.callOf)) s₁) s := by
        refine wp_mono (total_dequeueOne call h hwl hq) ?_
        rintro r s₁ ⟨h₁, hst₁, hcall₁, hlook₁, hhist₁⟩
        refine wp_mono (ih h₁ (hlook₁ ▸ ha)) ?_
        rintro r s' ⟨q', h', hst', hhist'⟩
        rw [update_self] at h' hhist'
        refine ⟨q', ?_, hst'.trans hst₁, ?_⟩
        · simpa using h'
        · rw [hhist', hhist₁, hcall₁]
          simp only [List.take_succ_cons, History.dequeueAll, ← List.foldl_append,
            ← List.filterMap_append, List.singleton_append]
      simpa only [wp_bind] using hturn

/-! ## The second loop -/

/-- A queued thread waits, and its node is not marked. -/
theorem thread_of_queued (h : s.standing t = .queued c addr) :
    (s.node t).woken = false ∧ ∃ id stage, s.thread t = .waiting c addr id stage := by
  unfold State.standing at h
  split at h
  case h_1 => cases h
  case h_2 call addr' id stage hp =>
    cases hw : (s.node t).woken with
    | true => simp [hw] at h
    | false =>
      simp only [hw, Bool.false_eq_true, if_false, Standing.queued.injEq] at h
      obtain ⟨rfl, rfl⟩ := h
      exact ⟨rfl, id, stage, hp⟩
  case h_3 => cases h

/-- `wake_node` on a thread that has been taken out of its waitlist: it is
released, and the caller switches only if it is to yield. -/
theorem total_wakeNode (hL : Linked s q moving)
    (hC : Counted s .none leak) (hS : Staged s) (hm : t ∈ moving)
    (hst : s.standing t = .queued c addr) (yield : Bool) :
    Total (wakeNode t yield) (fun r s' => Linked s' q (moving.erase t) ∧ Counted s' .none leak ∧
      Staged s' ∧ s'.link = s.link ∧
      s'.standing = update s.standing t (.released c addr) ∧ s'.history = s.history ∧
      (r = true → yield = true)) s := by
  obtain ⟨hw, id, stage, hp⟩ := thread_of_queued hst
  have hfit := hS.fits t c addr id stage hp
  simp only [wakeNode, wp_bind, wp_get, total_setNode]
  cases stage with
  | resumed => rw [show (s.node t).woken = true from hfit] at hw; cases hw
  | cancelling f => rw [hfit.2.1] at hw; cases hw
  | suspended =>
    have hn : s.node t = ⟨.tid, t, false⟩ := hfit
    simp only [hn, wp_bind, threadResume, Fin.is_lt, dif_pos, wp_get, Fin.eta, hp,
      total_setThread, wp_pure]
    refine ⟨?_, ?_, ?_, trivial, ?_, trivial, fun h => h⟩
    · exact (hL.wake (n := ⟨.tid, t, true⟩) rfl hm).setStage hp .resumed
    · have hC' := hC.setStage hp .resumed
      exact ⟨hC'.entry, hC'.count, hC'.key, hC'.fresh, hC'.owned⟩
    · refine hS.change t (fun u hu => by simp [hu]) (fun u hu => by simp [hu])
        (fun _ _ _ _ => rfl) (Nat.le_refl _) ?_ ?_
      · intro call' addr' id' stage' h
        simp only [update_self, Phase.waiting.injEq] at h
        obtain ⟨-, -, -, rfl⟩ := h
        simp [Fits]
      · intro u f _ h
        simp [Phase.future] at h
    · refine standing_update (fun u hu => by simp [hu]) ?_
      simp [State.standing]
  | timed sleep f =>
    obtain ⟨hlt, woken, hn, hf⟩ := hfit
    obtain rfl : woken = false := by rw [hn] at hw; exact hw
    simp only [hn, wp_bind, futureWrite, wp_get, hf, wp_require, setFuture, wp_modify, wp_pure,
      not_true_eq_false, if_false, if_true, total_assert]
    refine ⟨fun _ => ⟨trivial, ?_, ?_, ?_, trivial, ?_, trivial, by simp⟩, by simp⟩
    · have hL' := hL.wake (n := ⟨.future, f, true⟩) rfl hm
      exact ⟨hL'.lists, hL'.mem⟩
    · exact ⟨hC.entry, hC.count, hC.key, hC.fresh, hC.owned⟩
    · refine hS.change t (fun _ _ => rfl) (fun u hu => by simp [hu]) ?_ (Nat.le_refl _) ?_ ?_
      · intro u g hu hg
        refine update_of_ne ?_ _ _
        rintro rfl
        exact hu (hS.futures u t g hg (by rw [hp]; rfl))
      · intro call' addr' id' stage' h
        have h : s.thread t = .waiting call' addr' id' stage' := h
        rw [hp] at h
        cases h
        exact ⟨hlt, true, by simp, by simp⟩
      · intro u g hu hg hug
        exact hu (hS.futures u t g hug hg)
    · refine standing_update (fun u hu => by simp [hu]) ?_
      simp [State.standing, hp]

/-- Where the threads stand after `ts` have been released. -/
def releaseAll (standing : Tid T → Standing) (ts : List (Tid T)) : Tid T → Standing :=
  fun t => if t ∈ ts then (standing t).release else standing t

theorem releaseAll_cons {standing : Tid T → Standing} {x : Tid T} {rest : List (Tid T)} (hx : standing x = .queued c addr) (hrest : x ∉ rest) :
    releaseAll (update standing x (.released c addr)) rest =
      releaseAll standing (x :: rest) := by
  funext u
  by_cases hu : u = x
  · subst hu
    simp [releaseAll, hrest, hx, Standing.release]
  · simp [releaseAll, hu]

theorem total_wakeLoop (yield : Bool) (fuel woken : Nat)
    (h : Dequeuing s q moving toWake leak)
    (hm : ∀ u ∈ moving, ∃ c, s.standing u = .queued c addr) (hfuel : moving.length ≤ fuel) :
    Total (wakeLoop yield fuel toWake woken) (fun r s' => Good s' q leak ∧
      r.1 = woken + moving.length ∧ s'.standing = releaseAll s.standing moving ∧
      s'.history = s.history) s := by
  induction moving generalizing s toWake woken fuel with
  | nil =>
    obtain rfl : toWake = none := h.list.head
    have hgood : Good s q leak := ⟨h.linked, h.counted, h.staged⟩
    cases fuel with
    | zero => exact ⟨hgood, rfl, by funext u; simp [releaseAll], rfl⟩
    | succ fuel => exact ⟨hgood, rfl, by funext u; simp [releaseAll], rfl⟩
  | cons x rest ih =>
    obtain rfl : toWake = some x := h.list.head
    obtain ⟨hxrest, hrest⟩ := List.nodup_cons.mp h.list.nodup
    cases fuel with
    | zero => simp at hfuel
    | succ fuel =>
      obtain ⟨c, hx⟩ := hm x List.mem_cons_self
      have hlist := h.list.remove (List.mem_cons_self : x ∈ x :: rest)
      rw [List.erase_cons_head] at hlist
      have hL : Linked { s with link := (DList.remove s.link (some x) x).1 } q (x :: rest) := by
        have hframe := h.linked.frame_link (DList.remove s.link (some x) x).1 (s.node x)
          (fun u hu => h.list.remove_of_notMem List.mem_cons_self hu) List.mem_cons_self
        rw [update_eq_self] at hframe
        exact hframe
      have hC : Counted { s with link := (DList.remove s.link (some x) x).1 } .none leak :=
        ⟨h.counted.entry, h.counted.count, h.counted.key, h.counted.fresh, h.counted.owned⟩
      have hS : Staged { s with link := (DList.remove s.link (some x) x).1 } :=
        ⟨h.staged.fits, h.staged.futures⟩
      simp only [wakeLoop, listRemove, wp_bind, wp_get, wp_modify, wp_pure]
      refine wp_mono (total_wakeNode hL hC hS List.mem_cons_self hx _) ?_
      rintro yielded s₁ ⟨hL₁, hC₁, hS₁, hlink₁, hst₁, hhist₁, hyield⟩
      rw [List.erase_cons_head] at hL₁
      have hst₁ : s₁.standing = update s.standing x (.released c addr) := hst₁
      have h₁ : Dequeuing s₁ q rest (DList.remove s.link (some x) x).2 leak :=
        ⟨hL₁, hC₁, hS₁, hlink₁ ▸ hlist⟩
      have hm₁ : ∀ u ∈ rest, ∃ c, s₁.standing u = .queued c addr := by
        intro u hu
        rw [hst₁, update_of_ne (ne_of_mem_of_not_mem hu hxrest)]
        exact hm u (List.mem_cons_of_mem _ hu)
      -- a turn that yields is the last one
      by_cases hy : yielded = true
      · have hnil : rest = [] := by
          have hlast : (DList.remove s.link (some x) x).2 = none := by
            have := hyield hy
            simp only [Bool.decide_and, Bool.and_eq_true, decide_eq_true_eq] at this
            exact this.1
          have := hlist.head
          rw [hlast] at this
          exact List.head?_eq_none_iff.mp this.symm
        subst hnil
        rw [if_pos hy]
        refine ⟨⟨hL₁, hC₁, hS₁⟩, rfl, ?_, hhist₁⟩
        rw [hst₁, ← releaseAll_cons hx hxrest]
        funext u
        simp [releaseAll]
      · rw [if_neg hy]
        refine wp_mono (ih fuel (woken + 1) h₁ hm₁ (by simpa using hfuel)) ?_
        rintro r s' ⟨hgood, hcount, hst, hhist⟩
        refine ⟨hgood, ?_, ?_, hhist.trans hhist₁⟩
        · rw [hcount, List.length_cons]
          omega
        · rw [hst, hst₁, releaseAll_cons hx hxrest]

/-! ## The call -/

theorem queuedCall_eq (s : State T) (addr : Addr) (t : Tid T) :
    s.queuedCall addr t = (s.standing t).queuedCall addr := by
  unfold State.queuedCall State.standing
  cases hp : s.thread t with
  | waiting call a id stage =>
    cases hw : (s.node t).woken <;> simp [Standing.queuedCall]
  | _ => rfl

theorem queuedOn_eq (s : State T) (addr : Addr) : s.queuedOn addr = s.abs.queuedOn addr := by
  simp only [State.queuedOn, Spec.queuedOn, queuedCall_eq]
  rfl

theorem callOf_eq (s : State T) (t : Tid T) : s.callOf t = (s.standing t).wait := by
  unfold State.callOf State.standing
  cases hp : s.thread t with
  | waiting call a id stage => cases hw : (s.node t).woken <;> rfl
  | _ => rfl

/-- The threads in the waitlist of an address are those queued on it. -/
theorem Good.mem_iff_queued (h : Good s q leak)
    (ha : s.lookup addr = some id) {u : Tid T} :
    u ∈ q id ↔ ∃ c, s.standing u = .queued c addr := by
  rw [h.linked.mem u id]
  constructor
  · rintro ⟨huses, hw, -⟩
    cases hp : s.thread u with
    | waiting c a id' stage =>
      rw [hp] at huses
      obtain rfl : id' = id := huses
      obtain rfl := h.counted.key a addr id' (h.counted.entry u c a id' stage hp) ha
      exact ⟨c, by simp [State.standing, hp, hw]⟩
    | _ => rw [hp] at huses; exact huses.elim
  · rintro ⟨c, hst⟩
    obtain ⟨hw, id', stage, hp⟩ := thread_of_queued hst
    have hid : id' = id := by
      have := h.counted.entry u c addr id' stage hp
      rw [ha] at this
      exact (Option.some.inj this).symm
    exact ⟨by rw [hp]; exact hid, hw, by simp⟩

/-- There are as many of them as calls. -/
theorem Good.length_queued (h : Good s q leak)
    (ha : s.lookup addr = some id) : (q id).length = (s.abs.queuedOn addr).length := by
  obtain ⟨wl, hwl, -⟩ := h.counted.count addr id ha
  have hperm : (q id).Perm ((List.finRange T.count).filter
      fun u => ((s.standing u).queuedCall addr).isSome) := by
    refine (List.perm_ext_iff_of_nodup (h.linked.lists id wl hwl).nodup
      ((List.nodup_finRange _).filter _)).mpr fun u => ?_
    rw [h.mem_iff_queued ha, List.mem_filter]
    simp only [List.mem_finRange, true_and]
    cases s.standing u with
    | queued c a => simp [Standing.queuedCall]
    | _ => simp [Standing.queuedCall]
  rw [hperm.length_eq, Spec.queuedOn, List.length_filterMap_eq_countP, List.countP_eq_length_filter]
  rfl

theorem Good.queuedOn_nil (h : Good s q leak) (ha : s.lookup addr = none) :
    s.abs.queuedOn addr = [] := by
  refine List.eq_nil_iff_forall_not_mem.mpr fun c hc => ?_
  obtain ⟨u, hu⟩ := Spec.mem_queuedOn.mp hc
  obtain ⟨-, id, stage, hp⟩ := thread_of_queued hu
  rw [h.counted.entry u c addr id stage hp] at ha
  cases ha

/-- The threads that the first loop takes out are those a wake may
release. -/
theorem Good.mayRelease (h : Good s q leak)
    (ha : s.lookup addr = some id) (count : Int) :
    s.abs.MayRelease addr count ((q id).take (if count < 0 then INT_MAX else count).toNat) := by
  obtain ⟨wl, hwl, -⟩ := h.counted.count addr id ha
  have hnodup := (h.linked.lists id wl hwl).nodup
  have hle : (q id).length ≤ T.count := by simpa using hnodup.length_le_card
  have hT := T.count_lt
  refine ⟨hnodup.sublist (List.take_sublist _ _), ?_, ?_⟩
  · intro u hu
    exact (h.mem_iff_queued ha).mp (List.mem_of_mem_take hu)
  · rw [List.length_take, ← h.length_queued ha, wanted]
    split
    case isTrue =>
      have : INT_MAX.toNat = 2147483647 := rfl
      omega
    case isFalse => rfl

section

variable {addr : Addr} {count : Int} {flags : BitVec 32} {ts : List (Tid T)}

/-- The state after `ts` have been released. -/
theorem abs_release (hst : s'.standing = releaseAll s.standing ts)
    (hhist : s'.history = (s.history.wakeCalled addr count flags (s.queuedOn addr)).dequeueAll
      s.history.calls (ts.filterMap s.callOf)) :
    s'.abs = s.abs.release addr count flags ts := by
  have hcalls : ts.filterMap s.callOf = s.abs.calls ts := by
    simp only [Spec.calls]
    exact congrArg (List.filterMap · ts) (funext (callOf_eq s))
  rw [State.abs, hst, hhist, hcalls, queuedOn_eq]
  rfl

/-- The running thread is not released. -/
theorem releaseAll_running (ht : s.standing t = .running) :
    releaseAll s.standing ts t = .running := by
  simp only [releaseAll, ht]
  split <;> rfl

theorem abs_wakeReturn (habs : s'.abs = s.abs.release addr count flags ts)
    (ht : s.standing t = .running) (rc : Except Errno Nat) :
    ({ s' with history := s'.history.wakeReturns s.history.calls rc } : State T).abs =
      (s.abs.release addr count flags ts).wakeReturn t s.history.calls rc := by
  have hrun : s'.standing t = .running := by
    have hst : s'.standing = releaseAll s.standing ts := congrArg Spec.standing habs
    rw [hst]
    exact releaseAll_running ht
  rw [← habs]
  simp only [State.abs, Spec.wakeReturn, ← hrun, update_eq_self]
  rfl

theorem abs_wakeYield (habs : s'.abs = s.abs.release addr count flags ts) (k woken : Nat) :
    ({ s' with thread := update s'.thread t (.yielded k woken) } : State T).abs =
      (s.abs.release addr count flags ts).wakeYield t k woken := by
  rw [← habs]
  simp only [State.abs, Spec.wakeYield, Spec.mk.injEq, and_true]
  exact standing_update (fun u hu => by simp [hu]) (by simp [State.standing])

end

/-- A thread outside the waits stays outside. -/
theorem Good.setOutside (h : Good s q leak) {p : Phase} (ht : ∀ i, ¬ (s.thread t).Uses i)
    (hp : ∀ i, ¬ p.Uses i) : Good { s with thread := update s.thread t p } q leak := by
  have huses : ∀ u i, (update s.thread t p u).Uses i ↔ (s.thread u).Uses i := by
    intro u i
    by_cases hu : u = t
    · subst hu; simp [ht i, hp i]
    · simp [hu]
  refine ⟨?_, ?_, ?_⟩
  · exact h.linked.congr rfl huses (fun _ => rfl) fun i wl hwl => ⟨wl, hwl, rfl⟩
  · refine h.counted.congr ?_ ?_ rfl (fun _ => rfl) rfl rfl
    · intro u call addr id stage hu
      by_cases hut : u = t
      · subst hut
        simp only [update_self] at hu
        exact absurd (hu ▸ rfl : p.Uses id) (hp id)
      · simp only [update_of_ne hut] at hu
        exact ⟨stage, hu⟩
    · intro i
      exact Count.count_update_of_iff (by simp [ht i, hp i])
  · refine h.staged.change t (fun u hu => by simp [hu]) (fun _ _ => rfl) (fun _ _ _ _ => rfl)
      (Nat.le_refl _) ?_ ?_
    · intro call addr id stage hst
      simp only [update_self] at hst
      exact absurd (hst ▸ rfl : p.Uses id) (hp id)
    · intro u f _ hf
      simp only [update_self] at hf
      cases p with
      | waiting call addr id stage => exact absurd rfl (hp id)
      | _ => cases hf

theorem thread_of_running (h : s.standing t = .running) : s.thread t = .running := by
  unfold State.standing at h
  split at h
  case h_1 hp => exact hp
  case h_2 => split at h <;> cases h
  case h_3 => cases h

theorem stepped_called {count : Int} {flags : BitVec 32} {a' : Spec T}
    (hgood : ∃ q', Good s' q' leak) (habs : s'.abs = a') (hstep : Spec.Step s.abs a')
    (hcalled : s.abs.Called a' addr count flags) :
    Stepped s leak none s' ∧ s.abs.Called s'.abs addr count flags := by
  subst habs
  exact ⟨⟨hgood, by simp, hstep⟩, hcalled⟩

theorem total_futexWake (h : Good s q leak) (ht : s.thread t = .running) (addr : Addr)
    (count : Int) (flags : BitVec 32) :
    Total (futexWake t addr count flags) (fun _ s' => Stepped s leak none s' ∧
      s.abs.Called s'.abs addr count flags) s := by
  have hrun : s.standing t = .running := by simp [State.standing, ht]
  have hnone : releaseAll s.standing [] = s.standing := by
    funext u
    simp [releaseAll]
  -- the state once the call is on record
  let s₀ : State T := { s with
    history := s.history.wakeCalled addr count flags (s.queuedOn addr) }
  have h₀ : Good s₀ q leak := h.setHistory _
  have habs₀ : s₀.abs = s.abs.release addr count flags [] :=
    abs_release hnone.symm rfl
  simp only [futexWake, wp_bind, wp_get, total_record]
  by_cases hflags : flags ≠ 0 ∧ flags ≠ FUTEX_YIELD
  · rw [if_pos hflags]
    exact stepped_called ⟨q, h.setHistory _⟩ (abs_wakeReturn habs₀ hrun _)
      (.wakeInvalid t addr count flags hrun (by tauto)) Spec.called_wakeReturn
  · rw [if_neg hflags]
    have hvalid : flags = 0 ∨ flags = FUTEX_YIELD := by tauto
    simp only [wp_bind]
    refine wp_mono (total_findFutexEntry_wake addr ⟨false, false, false⟩) ?_
    rintro r s₁ ⟨rfl, hr⟩
    have hr : r = s.lookup addr := hr
    cases r with
    | none =>
      have hnil : s.abs.MayRelease addr count [] :=
        ⟨List.nodup_nil, by simp, by simp [h.queuedOn_nil hr.symm, wanted]⟩
      exact stepped_called ⟨q, h.setHistory _⟩ (abs_wakeReturn habs₀ hrun _)
        (.wake t addr count flags [] hrun hvalid hnil) Spec.called_wakeReturn
    | some id =>
      have ha : s.lookup addr = some id := hr.symm
      have hrel := h.mayRelease ha count
      generalize hts : (q id).take (if count < 0 then INT_MAX else count).toNat = ts at hrel
      simp only [wp_bind]
      refine wp_mono (total_dequeueLoop _ (s := s₀)
        ⟨h₀.linked, h₀.counted, h₀.staged, DList.IsList.nil⟩ ha) ?_
      rintro toWake s₁ ⟨q', h₁, hst₁, hhist₁⟩
      rw [hts, List.append_nil] at h₁
      rw [hts] at hhist₁
      have hqueued : ∀ u ∈ ts.reverse, ∃ c, s₁.standing u = .queued c addr := by
        intro u hu
        rw [hst₁]
        exact hrel.queued u (List.mem_reverse.mp hu)
      have hfuel : ts.reverse.length ≤ T.count := by
        simpa using hrel.nodup.length_le_card
      refine wp_mono (total_wakeLoop _ _ 0 h₁ hqueued hfuel) ?_
      rintro ⟨woken, yielded⟩ s₂ ⟨hgood, hwoken, hst₂, hhist₂⟩
      obtain rfl : woken = ts.length := by simpa using hwoken
      have habs : s₂.abs = s.abs.release addr count flags ts := by
        refine abs_release ?_ (hhist₂.trans hhist₁)
        rw [hst₂, hst₁]
        funext u
        simp only [releaseAll, List.mem_reverse]
        rfl
      by_cases hy : yielded = true
      · have hrun₂ : s₂.thread t = .running := by
          refine thread_of_running ?_
          rw [show s₂.standing = releaseAll s.standing ts from congrArg Spec.standing habs]
          exact releaseAll_running hrun
        rw [if_pos hy]
        exact stepped_called
          ⟨q', hgood.setOutside (by rw [hrun₂]; exact fun _ hu => hu) fun _ hu => hu⟩
          (abs_wakeYield habs _ _) (.wakeYield t addr count flags ts hrun hvalid hrel)
          Spec.called_wakeYield
      · rw [if_neg hy]
        exact stepped_called ⟨q', hgood.setHistory _⟩ (abs_wakeReturn habs hrun _)
          (.wake t addr count flags ts hrun hvalid hrel) Spec.called_wakeReturn

/-- A wake that has yielded returns. -/
theorem total_wakeResumed {call woken : Nat} (h : Good s q leak)
    (hp : s.thread t = .yielded call woken) :
    Total (wakeResumed t call woken) (fun _ s' => Good s' q leak ∧
      s'.abs = s.abs.wakeReturn t call (.ok woken)) s := by
  simp only [wakeResumed, wp_bind, total_setThread, total_record]
  refine ⟨Good.setHistory (h.setOutside (p := .running) (by rw [hp]; exact fun _ hu => hu)
    fun _ hu => hu) _, ?_⟩
  simp only [State.abs, Spec.wakeReturn, Spec.mk.injEq, and_true]
  exact standing_update (fun u hu => by simp [hu]) (by simp [State.standing])

end WasiLibc.Futex

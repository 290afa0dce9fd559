import WasiLibc.Futex.Invariant

/-!
# WasiLibc.Futex.Rules

What the building blocks of the futex calls do to the three parts of the
invariant.
-/

namespace WasiLibc.Futex

open Function Wp

variable {T : Threads} {s s' : State T} {q : Nat → List (Tid T)} {moving : List (Tid T)}
  {hold : Hold} {leak : Nat → Nat} {t : Tid T} {id : Nat} {wl : Waitlist T}

/-- `f` run from `s` ends in `Q`. -/
abbrev Total {α : Type} (f : M T α) (Q : α → State T → Prop) (s : State T) : Prop :=
  wp (fun _ : Fault => False) f Q s

section

variable {Q : PUnit → State T → Prop}

@[simp] theorem total_setThread {p : Phase} :
    Total (setThread t p) Q s ↔ Q ⟨⟩ { s with thread := update s.thread t p } := Iff.rfl

@[simp] theorem total_setNode {n : Node} :
    Total (setNode t n) Q s ↔ Q ⟨⟩ { s with node := update s.node t n } := Iff.rfl

@[simp] theorem total_setWaitlist {w : Option (Waitlist T)} :
    Total (setWaitlist id w) Q s ↔ Q ⟨⟩ { s with waitlist := update s.waitlist id w } :=
  Iff.rfl

@[simp] theorem total_record {f : History → History} :
    Total (record f) Q s ↔ Q ⟨⟩ { s with history := f s.history } := Iff.rfl

@[simp] theorem total_assert {c : Prop} [Decidable c] : Total (assert c) Q s ↔ c ∧ Q ⟨⟩ s := by
  unfold assert
  by_cases h : c <;> simp [h]

theorem total_getWaitlist {Q : Waitlist T → State T → Prop} (h : s.waitlist id = some wl) :
    Total (getWaitlist id) Q s ↔ Q wl s := by
  simp only [getWaitlist, wp_bind, wp_get, h, wp_pure]

/-! ## Waitlists -/

/-- After `list_insert(&waiters->list, node)`. -/
def State.inserted (s : State T) (id : Nat) (wl : Waitlist T) (t : Tid T) : State T :=
  { s with
    link := (DList.insert s.link wl.list t).1
    node := update s.node t { s.node t with woken := false }
    waitlist := update s.waitlist id
      (some { wl with list := (DList.insert s.link wl.list t).2 }) }

/-- After `list_remove(&waiters->list, node)`. -/
def State.removed (s : State T) (id : Nat) (wl : Waitlist T) (t : Tid T) : State T :=
  { s with
    link := (DList.remove s.link wl.list t).1
    waitlist := update s.waitlist id
      (some { wl with list := (DList.remove s.link wl.list t).2 }) }

theorem total_waitlistInsert (h : s.waitlist id = some wl) :
    Total (waitlistInsert id t) Q s ↔ Q ⟨⟩ (s.inserted id wl t) := by
  simp only [waitlistInsert, wp_bind, total_getWaitlist h, listInsert, wp_get, wp_modify, wp_pure]
  exact (total_getWaitlist (by exact h)).trans Iff.rfl

theorem total_waitlistRemove (h : s.waitlist id = some wl) :
    Total (waitlistRemove id t) Q s ↔ Q ⟨⟩ (s.removed id wl t) := by
  simp only [waitlistRemove, wp_bind, total_getWaitlist h, listRemove, wp_get, wp_modify, wp_pure]
  exact (total_getWaitlist (by exact h)).trans Iff.rfl

end

/-- The first thread of another waitlist is not in this one. -/
theorem Linked.head_ne (h : Linked s q moving) (hwl : s.waitlist id = some wl) {id' : Nat}
    (hid : id' ≠ id) {u : Tid T} (hu : u ∈ q id') : wl.list ≠ some u := by
  intro hhead
  have hmem : u ∈ q id := by
    rw [(h.lists id wl hwl).head] at hhead
    exact List.mem_of_head? hhead
  exact hid (uses_unique ((h.mem u id').mp hu).1 ((h.mem u id).mp hmem).1)

/-- A thread that waits now is in front of the waitlist. -/
theorem Linked.block (h : Linked s q []) (hwl : s.waitlist id = some wl)
    (ht : ∀ id, ¬ (s.thread t).Uses id) {n : Node} (call : Nat) (addr : Addr) (stage : Stage) :
    Linked { ({ s with node := update s.node t n } : State T).inserted id wl t with
        thread := update s.thread t (.waiting call addr id stage) }
      (update q id (t :: q id)) [] := by
  have hnot := h.notMem ht
  refine ⟨?_, ?_⟩
  · intro id' wl' hwl'
    by_cases hid : id' = id
    · subst hid
      simp only [State.inserted, update_self, Option.some.injEq] at hwl'
      subst hwl'
      rw [update_self]
      exact (h.lists id' wl hwl).insert (hnot id')
    · simp only [State.inserted, update_of_ne hid] at hwl' ⊢
      refine (h.lists id' wl' hwl').frame fun u hu => ?_
      exact DList.insert_of_ne (ne_of_mem_of_not_mem hu (hnot id')) (h.head_ne hwl hid hu)
  · intro u id'
    simp only [State.inserted]
    by_cases hut : u = t
    · subst hut
      by_cases hid : id' = id
      · subst hid; simp [Phase.Uses]
      · simp [update_of_ne hid, hnot id', Phase.Uses, Ne.symm hid]
    · have hmem := h.mem u id'
      by_cases hid : id' = id
      · subst hid; simp [hut, hmem]
      · simp [update_of_ne hid, hut, hmem]

/-- A queued thread is taken out of its waitlist. -/
theorem Linked.removed (h : Linked s q moving) (hwl : s.waitlist id = some wl) (ht : t ∈ q id) :
    Linked (s.removed id wl t) (update q id ((q id).erase t)) (t :: moving) := by
  have hlist := h.lists id wl hwl
  refine ⟨?_, ?_⟩
  · intro id' wl' hwl'
    by_cases hid : id' = id
    · subst hid
      simp only [State.removed, update_self, Option.some.injEq] at hwl'
      subst hwl'
      rw [update_self]
      exact hlist.remove ht
    · simp only [State.removed, update_of_ne hid] at hwl' ⊢
      refine (h.lists id' wl' hwl').frame fun u hu => hlist.remove_of_notMem ht fun hmem => ?_
      exact hid (uses_unique ((h.mem u id').mp hu).1 ((h.mem u id).mp hmem).1)
  · intro u id'
    have hmem := h.mem u id'
    by_cases hid : id' = id
    · subst hid
      rw [update_self, hlist.nodup.mem_erase_iff, hmem]
      simp only [State.removed, List.mem_cons, not_or]
      tauto
    · have hut : t ∉ q id' := fun hmem' =>
        hid (uses_unique ((h.mem t id').mp hmem').1 ((h.mem t id).mp ht).1)
      rw [update_of_ne hid, hmem]
      simp only [State.removed, List.mem_cons, not_or]
      refine ⟨fun ⟨h1, h2, h3⟩ => ⟨h1, h2, ?_, h3⟩, fun ⟨h1, h2, _, h3⟩ => ⟨h1, h2, h3⟩⟩
      rintro rfl
      exact hut (hmem.mpr ⟨h1, h2, h3⟩)

/-- A thread that is in no waitlist goes on. -/
theorem Linked.leave (h : Linked s q moving) {p : Phase} (hp : ∀ id, ¬ p.Uses id)
    (ht : (s.node t).woken = true ∨ t ∈ moving) :
    Linked { s with thread := update s.thread t p } q (moving.erase t) := by
  refine ⟨h.lists, fun u id => ?_⟩
  by_cases hut : u = t
  · subst hut
    have hnot : u ∉ q id := by
      intro hmem
      obtain ⟨-, hw, hm⟩ := (h.mem u id).mp hmem
      rcases ht with ht | ht
      · rw [ht] at hw; cases hw
      · exact hm ht
    simp [hnot, hp id]
  · rw [h.mem u id]
    simp [hut]

/-- A thread on its way out is marked as woken. -/
theorem Linked.wake (h : Linked s q moving) {n : Node} (hn : n.woken = true) (ht : t ∈ moving) :
    Linked { s with node := update s.node t n } q (moving.erase t) := by
  refine ⟨h.lists, fun u id => ?_⟩
  by_cases hut : u = t
  · subst hut
    have hnot : u ∉ q id := fun hmem => ((h.mem u id).mp hmem).2.2 ht
    simp [hnot, hn]
  · rw [h.mem u id]
    simp [hut]

/-- Threads on their way out are linked among themselves. -/
theorem Linked.frame_link (h : Linked s q moving) (link : Tid T → DList.Link (Tid T)) (n : Node)
    (hlink : ∀ u, u ∉ moving → link u = s.link u) (ht : t ∈ moving) :
    Linked { s with link := link, node := update s.node t n } q moving := by
  refine ⟨fun id wl hwl => ?_, fun u id => ?_⟩
  · exact (h.lists id wl hwl).frame fun u hu => hlink u ((h.mem u id).mp hu).2.2
  · by_cases hut : u = t
    · subst hut
      have hnot : u ∉ q id := fun hmem => ((h.mem u id).mp hmem).2.2 ht
      simp [hnot, ht]
    · rw [h.mem u id]
      simp [hut]

variable {addr : Addr} {stage : Stage}

/-- The stage of a thread does not matter to the lists. -/
theorem Linked.setStage (h : Linked s q moving) {c : Nat}
    (hp : s.thread t = .waiting c addr id stage) (stage' : Stage) :
    Linked { s with thread := update s.thread t (.waiting c addr id stage') } q moving := by
  refine h.congr rfl ?_ (fun _ => rfl) fun i wl hwl => ⟨wl, hwl, rfl⟩
  intro u i
  by_cases hu : u = t
  · subst hu; simp [hp, Phase.Uses]
  · simp [hu]

/-! ## Counts -/

theorem users_update (s : State T) (t : Tid T) (p : Phase) (id : Nat) :
    ({ s with thread := update s.thread t p } : State T).users id +
      (if (s.thread t).Uses id then 1 else 0) = s.users id + if p.Uses id then 1 else 0 :=
  Count.count_update s.thread t p

/-- The running thread starts to wait; its reference is that of a user. -/
theorem Counted.block (h : Counted s (.taken id) leak) (ht : ∀ id, ¬ (s.thread t).Uses id) (ha : s.lookup addr = some id) (call : Nat) (stage : Stage) :
    Counted { s with thread := update s.thread t (.waiting call addr id stage) } .none
      leak := by
  refine ⟨?_, ?_, h.key, h.fresh, h.owned⟩
  · intro u call' addr' id' stage' hu
    by_cases hut : u = t
    · subst hut
      simp only [update_self, Phase.waiting.injEq] at hu
      obtain ⟨-, rfl, rfl, -⟩ := hu
      exact ha
    · simp only [update_of_ne hut] at hu
      exact h.entry u call' addr' id' stage' hu
  · intro addr' id' ha'
    obtain ⟨wl, hwl, hcount, hpos⟩ := h.count addr' id' ha'
    refine ⟨wl, hwl, ?_, .inl (hpos.resolve_right (by simp))⟩
    have hupd := users_update s t (.waiting call addr id stage) id'
    rw [if_neg (ht id')] at hupd
    rw [hcount]
    simp only [Hold.count, Phase.Uses] at hupd ⊢
    by_cases hid : id = id' <;> simp only [hid, if_true, if_false] at hupd ⊢ <;> omega

/-- A waiting thread goes on, and holds its reference. -/
theorem Counted.leave (h : Counted s .none leak) {call : Nat}
    (ht : s.thread t = .waiting call addr id stage) {p : Phase} (hp : ∀ id, ¬ p.Uses id) :
    Counted { s with thread := update s.thread t p } (.taken id) leak := by
  refine ⟨?_, ?_, h.key, h.fresh, h.owned⟩
  · intro u call' addr' id' stage' hu
    by_cases hut : u = t
    · subst hut
      simp only [update_self] at hu
      exact absurd (hu ▸ rfl : p.Uses id') (hp id')
    · simp only [update_of_ne hut] at hu
      exact h.entry u call' addr' id' stage' hu
  · intro addr' id' ha'
    obtain ⟨wl, hwl, hcount, hpos⟩ := h.count addr' id' ha'
    refine ⟨wl, hwl, ?_, .inl (hpos.resolve_right (by simp))⟩
    have hupd := users_update s t p id'
    rw [if_neg (hp id'), ht] at hupd
    rw [hcount]
    simp only [Hold.count, Phase.Uses] at hupd ⊢
    by_cases hid : id = id' <;> simp only [hid, if_true, if_false] at hupd ⊢ <;> omega

/-- The head of a waitlist, the links and the nodes do not matter to the
counts. -/
theorem Counted.setList (h : Counted s hold leak) (hwl : s.waitlist id = some wl)
    (list : Option (Tid T)) (hthread : s'.thread = s.thread) (hmap : s'.futexMap = s.futexMap)
    (hlist : s'.waitlist = update s.waitlist id (some { wl with list := list }))
    (hnext : s'.nextWaitlist = s.nextWaitlist) (hfreed : s'.freed = s.freed) :
    Counted s' hold leak := by
  refine h.congr (fun u call addr id stage hu => ⟨stage, hthread ▸ hu⟩) ?_ ?_ ?_ hnext hfreed
  · intro id
    simp only [State.users, hthread]
  · funext addr
    simp only [State.lookup, hmap]
  · intro id'
    rw [hlist]
    by_cases hid : id' = id
    · subst hid
      simp [hwl]
    · rw [update_of_ne hid]

/-- The stage of a thread does not matter to the counts. -/
theorem Counted.setStage (h : Counted s hold leak) {c : Nat}
    (hp : s.thread t = .waiting c addr id stage) (stage' : Stage) :
    Counted { s with thread := update s.thread t (.waiting c addr id stage') } hold
      leak := by
  refine h.congr ?_ ?_ rfl (fun _ => rfl) rfl rfl
  · intro u call' addr' id' st hu
    by_cases hut : u = t
    · subst hut
      simp only [update_self, Phase.waiting.injEq] at hu
      obtain ⟨rfl, rfl, rfl, -⟩ := hu
      exact ⟨_, hp⟩
    · simp only [update_of_ne hut] at hu
      exact ⟨st, hu⟩
  · intro i
    exact Count.count_update_of_iff (by simp [hp, Phase.Uses])

/-- A waitlist in use is not fresh. -/
theorem Counted.lt_of_lookup (h : Counted s hold leak)
    (ha : s.lookup addr = some id) : id < s.nextWaitlist := by
  by_contra hid
  obtain ⟨wl, hwl, -⟩ := h.count addr id ha
  rw [(h.fresh id (Nat.le_of_not_lt hid)).1] at hwl
  cases hwl

/-- A waitlist that the map does not know has no users. -/
theorem Counted.users_eq_zero (h : Counted s hold leak) (hid : ∀ addr, s.lookup addr ≠ some id) :
    s.users id = 0 := by
  refine Count.count_eq_zero_iff.mpr fun u hu => ?_
  cases hp : s.thread u with
  | waiting call addr waiters stage =>
    rw [hp] at hu
    have : waiters = id := hu
    exact hid addr (this ▸ h.entry u call addr waiters stage hp)
  | _ => rw [hp] at hu; exact hu

/-! ## Stages -/

/-- Only the thread `t`, its node and its future change. -/
theorem Staged.change (h : Staged s) (t : Tid T) (hthread : ∀ u, u ≠ t → s'.thread u = s.thread u)
    (hnode : ∀ u, u ≠ t → s'.node u = s.node u)
    (hfuture : ∀ u f, u ≠ t → (s.thread u).future = some f → s'.future f = s.future f)
    (hnext : s.nextFuture ≤ s'.nextFuture)
    (hfit : ∀ call addr id stage, s'.thread t = .waiting call addr id stage → Fits s' t stage)
    (hown : ∀ u f, u ≠ t → (s'.thread t).future = some f → (s.thread u).future ≠ some f) :
    Staged s' := by
  refine ⟨?_, ?_⟩
  · intro u call addr id stage hu
    by_cases hut : u = t
    · subst hut
      exact hfit call addr id stage hu
    · rw [hthread u hut] at hu
      have hold := h.fits u call addr id stage hu
      cases stage with
      | suspended => simpa only [Fits, hnode u hut] using hold
      | resumed => simpa only [Fits, hnode u hut] using hold
      | timed sleep f =>
        obtain ⟨hlt, woken, hn, hf⟩ := hold
        refine ⟨by omega, woken, (hnode u hut).trans hn, ?_⟩
        exact (hfuture u f hut (by rw [hu]; rfl)).trans hf
      | cancelling f =>
        obtain ⟨hlt, hn, hf⟩ := hold
        refine ⟨by omega, by rw [hnode u hut]; exact hn, ?_⟩
        exact (hfuture u f hut (by rw [hu]; rfl)).trans hf
  · intro u v f hu hv
    by_cases hut : u = t <;> by_cases hvt : v = t
    · exact hut.trans hvt.symm
    · subst hut
      rw [hthread v hvt] at hv
      exact absurd hv (hown v f hvt hu)
    · subst hvt
      rw [hthread u hut] at hu
      exact absurd hu (hown u f hut hv)
    · rw [hthread u hut] at hu
      rw [hthread v hvt] at hv
      exact h.futures u v f hu hv

/-- A future that has not been made is nobody's. -/
theorem Staged.future_lt (h : Staged s) {f : Nat} (hf : (s.thread t).future = some f) :
    f < s.nextFuture := by
  cases hp : s.thread t with
  | waiting call addr waiters stage =>
    have hfit := h.fits t call addr waiters stage hp
    rw [hp] at hf
    cases stage with
    | timed sleep g => cases hf; exact hfit.1
    | cancelling g => cases hf; exact hfit.1
    | _ => cases hf
  | _ => rw [hp] at hf; cases hf

end WasiLibc.Futex

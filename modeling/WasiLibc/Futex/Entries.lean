import WasiLibc.Futex.Rules

/-!
# WasiLibc.Futex.Entries

The entries of the futex map: `find_futex_entry`, the reference that a wait
takes, and `release_futex_entry`.
-/

namespace WasiLibc.Futex

open Function Wp

variable {T : Threads} {s s' : State T} {q : Nat → List (Tid T)} {moving : List (Tid T)}
  {leak : Nat → Nat} {t : Tid T} {id : Nat} {wl : Waitlist T}

/-- Only the map and the heap may differ. -/
structure Untouched (s s' : State T) : Prop where
  thread : s'.thread = s.thread
  node : s'.node = s.node
  link : s'.link = s.link
  future : s'.future = s.future
  nextFuture : s'.nextFuture = s.nextFuture
  history : s'.history = s.history

theorem Untouched.staged (h : Untouched s s') (hs : Staged s) : Staged s' :=
  hs.congr h.thread h.node h.future h.nextFuture

theorem Untouched.trans {s'' : State T} (h : Untouched s s') (h' : Untouched s' s'') :
    Untouched s s'' :=
  ⟨h'.thread.trans h.thread, h'.node.trans h.node, h'.link.trans h.link,
    h'.future.trans h.future, h'.nextFuture.trans h.nextFuture, h'.history.trans h.history⟩

/-- The waitlist of an address has been found. -/
theorem Counted.found (h : Counted s .none leak) (id : Nat) : Counted s (.found id) leak :=
  ⟨h.entry, fun addr id' ha => by
    obtain ⟨wl, hwl, hcount, hpos⟩ := h.count addr id' ha
    exact ⟨wl, hwl, hcount, .inl (hpos.resolve_right (by simp))⟩, h.key, h.fresh, h.owned⟩

theorem count_freed (freed : List Nat) (id id' : Nat) :
    (freed ++ [id]).count id' = freed.count id' + if id = id' then 1 else 0 := by
  by_cases hid : id = id' <;> simp [hid]

/-- A waitlist that could not be put into the map is freed at once. -/
theorem Counted.discard (h : Counted s .none leak) :
    Counted { s with
      nextWaitlist := s.nextWaitlist + 1
      waitlist := update s.waitlist s.nextWaitlist none
      freed := s.freed ++ [s.nextWaitlist] } .none leak := by
  have hnew := h.fresh s.nextWaitlist (Nat.le_refl _)
  refine ⟨h.entry, ?_, h.key, ?_, ?_⟩
  · intro addr id ha
    have hne : id ≠ s.nextWaitlist := Nat.ne_of_lt (h.lt_of_lookup ha)
    obtain ⟨wl, hwl, hcount⟩ := h.count addr id ha
    exact ⟨wl, by simpa only [update_of_ne hne] using hwl, hcount⟩
  · intro id hid
    simp only at hid
    obtain ⟨hwl, hf, hleak⟩ := h.fresh id (by omega)
    refine ⟨by simp only [update_of_ne (show id ≠ s.nextWaitlist by omega), hwl], ?_, hleak⟩
    rw [count_freed, hf, if_neg (by omega)]
  · intro id hid
    by_cases hne : id = s.nextWaitlist
    · subst hne
      exact .inr ⟨by rw [count_freed, hnew.2.1, if_pos rfl], by simp⟩
    · simp only at hid
      rw [count_freed, if_neg (Ne.symm hne), Nat.add_zero]
      simp only [update_of_ne hne]
      exact h.owned id (by omega)

variable {addr : Addr}

/-- A new waitlist, in the map. -/
theorem Counted.create (h : Counted s .none leak) {map : Addr → Option Nat}
    (hmap : s.futexMap = some map) (ha : map addr = none) :
    Counted { s with
      nextWaitlist := s.nextWaitlist + 1
      waitlist := update s.waitlist s.nextWaitlist (some ⟨none, 0⟩)
      futexMap := some (update map addr (some s.nextWaitlist)) }
      (.found s.nextWaitlist) leak := by
  have hlook : ∀ a, s.lookup a = map a := by simp [State.lookup, hmap]
  have hnew := h.fresh s.nextWaitlist (Nat.le_refl _)
  have hunknown : ∀ a, s.lookup a ≠ some s.nextWaitlist := fun a hl =>
    Nat.lt_irrefl _ (h.lt_of_lookup hl)
  -- an address is known under its old waitlist, or it is the new one
  have hlook' : ∀ a id, (some (update map addr (some s.nextWaitlist))).bind
      (fun map => map a) = some id ↔ (a = addr ∧ id = s.nextWaitlist) ∨ s.lookup a = some id := by
    intro a id
    by_cases haa : a = addr
    · subst haa
      simp [hlook, ha, eq_comm]
    · simp [haa, hlook]
  refine ⟨?_, ?_, ?_, ?_, ?_⟩
  · intro u call a id stage hu
    exact (hlook' a id).mpr (.inr (h.entry u call a id stage hu))
  · intro a id hl
    rcases (hlook' a id).mp hl with ⟨-, rfl⟩ | hl
    · refine ⟨⟨none, 0⟩, by simp, ?_, .inr rfl⟩
      show 0 = s.users s.nextWaitlist + 0 + leak s.nextWaitlist
      rw [h.users_eq_zero hunknown, hnew.2.2]
    · have hne : id ≠ s.nextWaitlist := fun he => hunknown a (he ▸ hl)
      obtain ⟨wl, hwl, hcount, hpos⟩ := h.count a id hl
      exact ⟨wl, by simpa only [update_of_ne hne] using hwl, hcount,
        .inl (hpos.resolve_right (by simp))⟩
  · intro a b id hla hlb
    rcases (hlook' a id).mp hla with ⟨ha', hid⟩ | hla' <;>
      rcases (hlook' b id).mp hlb with ⟨hb', hid'⟩ | hlb'
    · exact ha'.trans hb'.symm
    · exact absurd (hid ▸ hlb') (hunknown b)
    · exact absurd (hid' ▸ hla') (hunknown a)
    · exact h.key a b id hla' hlb'
  · intro id hid
    simp only at hid
    obtain ⟨hwl, hf, hleak⟩ := h.fresh id (by omega)
    exact ⟨by simp only [update_of_ne (show id ≠ s.nextWaitlist by omega), hwl], hf, hleak⟩
  · intro id hid
    by_cases hne : id = s.nextWaitlist
    · exact .inl ⟨addr, (hlook' addr id).mpr (.inl ⟨rfl, hne⟩), hne ▸ hnew.2.1⟩
    · simp only at hid
      simp only [update_of_ne hne]
      refine (h.owned id (by omega)).imp_left ?_
      rintro ⟨a, hl, hf⟩
      exact ⟨a, (hlook' a id).mpr (.inr hl), hf⟩

/-- A waitlist without users is empty. -/
theorem Linked.eq_nil (h : Linked s q moving) (hid : s.users id = 0) : q id = [] := by
  refine List.eq_nil_iff_forall_not_mem.mpr fun u hu => ?_
  exact Count.count_eq_zero_iff.mp hid u ((h.mem u id).mp hu).1

/-- Is the waitlist of `addr` there, or can it be made? -/
def State.Findable (s : State T) (addr : Addr) (mem : Memory) : Prop :=
  s.lookup addr ≠ none ∨
    (s.futexMap ≠ none ∨ mem.map = true) ∧ mem.malloc = true ∧ mem.set = true

/-- The result of `find_futex_entry`. -/
def Found (s : State T) (q : Nat → List (Tid T)) (leak : Nat → Nat) (addr : Addr) (mem : Memory)
    (r : Option Nat) (s' : State T) : Prop :=
  Untouched s s' ∧ Linked s' q [] ∧ (r.isSome = true ↔ s.Findable addr mem) ∧
    match r with
    | none => Counted s' .none leak
    | some id => Counted s' (.found id) leak ∧ s'.lookup addr = some id

theorem total_createFutexEntry (hL : Linked s q []) (hC : Counted s .none leak)
    {map : Addr → Option Nat} (hmap : s.futexMap = some map)
    (ha : map addr = none) (mem : Memory) :
    Total (createFutexEntry map addr mem) (Found s q leak addr mem) s := by
  have hfind : s.Findable addr mem ↔ mem.malloc = true ∧ mem.set = true := by
    simp [State.Findable, State.lookup, hmap, ha]
  unfold createFutexEntry
  by_cases hmalloc : mem.malloc = true
  · rw [if_neg (by simp [hmalloc])]
    simp only [wp_bind, wp_get, wp_modify, total_setWaitlist]
    by_cases hset : mem.set = true
    · rw [if_neg (by simp [hset])]
      simp only [wp_bind, wp_modify, wp_pure]
      refine ⟨⟨rfl, rfl, rfl, rfl, rfl, rfl⟩, ⟨?_, hL.mem⟩, by simp [hfind, hmalloc, hset],
        hC.create hmap ha, ?_⟩
      · intro id wl hwl
        by_cases hid : id = s.nextWaitlist
        · subst hid
          simp only [update_self, Option.some.injEq] at hwl
          subst hwl
          have hnil : q s.nextWaitlist = [] := hL.eq_nil (hC.users_eq_zero fun a hl =>
            Nat.lt_irrefl _ (hC.lt_of_lookup hl))
          rw [hnil]
          exact DList.IsList.nil
        · simp only [update_of_ne hid] at hwl
          exact hL.lists id wl hwl
      · simp [State.lookup]
    · rw [if_pos (by simpa using hset)]
      simp only [free, wp_bind, wp_modify, total_setWaitlist, wp_pure, update_idem]
      refine ⟨⟨rfl, rfl, rfl, rfl, rfl, rfl⟩, ⟨?_, hL.mem⟩, by simp [hfind, hset], hC.discard⟩
      intro id wl hwl
      by_cases hid : id = s.nextWaitlist
      · subst hid
        simp only [update_self] at hwl
        cases hwl
      · simp only [update_of_ne hid] at hwl
        exact hL.lists id wl hwl
  · rw [if_pos (by simpa using hmalloc)]
    exact ⟨⟨rfl, rfl, rfl, rfl, rfl, rfl⟩, hL, by simp [hfind, hmalloc], hC⟩

/-- The function from where the map is known. -/
theorem total_findInMap {s₁ : State T} {r : Option (Addr → Option Nat)} {addr : Addr} {mem : Memory}
    (hun : Untouched s s₁) (hL₁ : Linked s₁ q []) (hC₁ : Counted s₁ .none leak)
    (hr : s₁.futexMap = r) (hmap : r ≠ none ↔ s.futexMap ≠ none ∨ mem.map = true)
    (hlook : s₁.lookup = s.lookup) :
    Total (match r with
      | none => return none
      | some map =>
        match map addr with
        | some waiters => return some waiters
        | none => if ¬ true = true then return none else createFutexEntry map addr mem)
      (Found s q leak addr mem) s₁ := by
  cases r with
  | none =>
    have hnone : s.lookup addr = none := by rw [← hlook]; simp [State.lookup, hr]
    refine ⟨hun, hL₁, ?_, hC₁⟩
    simp [State.Findable, hnone, ← hmap]
  | some map =>
    cases ha : map addr with
    | some id =>
      have hsome : s.lookup addr = some id := by rw [← hlook]; simp [State.lookup, hr, ha]
      simp only [ha]
      exact ⟨hun, hL₁, by simp [State.Findable, hsome], hC₁.found id,
        by simp [State.lookup, hr, ha]⟩
    | none =>
      simp only [ha, not_true_eq_false, if_false]
      refine wp_mono (total_createFutexEntry hL₁ hC₁ hr ha mem) ?_
      rintro r s₂ ⟨hun₂, hL₂, hfind, hrest⟩
      refine ⟨hun.trans hun₂, hL₂, hfind.trans ?_, hrest⟩
      simp [State.Findable, hlook, hr, ← hmap]

theorem total_findFutexEntry (hL : Linked s q []) (hC : Counted s .none leak) (addr : Addr)
    (mem : Memory) :
    Total (findFutexEntry addr true mem) (Found s q leak addr mem) s := by
  simp only [findFutexEntry, getFutexMap, wp_bind, wp_get]
  have hself : Untouched s s := ⟨rfl, rfl, rfl, rfl, rfl, rfl⟩
  by_cases hmap : s.futexMap.isSome = true
  · rw [if_pos (.inl hmap)]
    have hne : s.futexMap ≠ none := Option.isSome_iff_ne_none.mp hmap
    exact total_findInMap hself hL hC rfl (by simp [hne]) rfl
  · rw [if_neg (by simpa using hmap)]
    have hnone : s.futexMap = none := by simpa using hmap
    have hlook : ({ s with futexMap := if mem.map then some fun _ => none else none } :
        State T).lookup = s.lookup := by
      funext a
      simp only [State.lookup, hnone]
      cases mem.map <;> rfl
    simp only [wp_bind, wp_modify, wp_pure]
    refine total_findInMap ⟨rfl, rfl, rfl, rfl, rfl, rfl⟩ ⟨hL.lists, hL.mem⟩ ?_ rfl ?_ hlook
    · exact hC.congr (fun t call addr id stage ht => ⟨stage, ht⟩) (fun _ => rfl) hlook (fun _ => rfl)
        rfl rfl
    · cases mem.map <;> simp [hnone]

/-- A wake only looks. -/
theorem total_findFutexEntry_wake (addr : Addr) (mem : Memory) :
    Total (findFutexEntry addr false mem) (fun r s' => s' = s ∧ r = s.lookup addr) s := by
  simp only [findFutexEntry, getFutexMap, wp_bind, wp_get]
  rw [if_pos (by simp)]
  cases hmap : s.futexMap with
  | none => exact ⟨rfl, by simp [State.lookup, hmap]⟩
  | some map =>
    simp only [wp_pure]
    cases ha : map addr with
    | none => exact ⟨rfl, by simp [State.lookup, hmap, ha]⟩
    | some id => exact ⟨rfl, by simp [State.lookup, hmap, ha]⟩

/-! ## References -/

/-- Only the count of the waitlist `id` changes. -/
theorem Counted.setRefcnt {hold hold' : Hold} (h : Counted s hold leak)
    (hwl : s.waitlist id = some wl) {n : Nat}
    (hn : n + hold.count id = wl.refcnt + hold'.count id) (hpos : 0 < n)
    (hother : ∀ id', id' ≠ id → hold.count id' = hold'.count id' ∧ hold ≠ .found id') :
    Counted { s with waitlist := update s.waitlist id (some { wl with refcnt := n }) }
      hold' leak := by
  refine ⟨h.entry, ?_, h.key, ?_, ?_⟩
  · intro addr id' ha
    obtain ⟨wl', hwl', hcount, hpos'⟩ := h.count addr id' ha
    by_cases hid : id' = id
    · subst hid
      rw [hwl] at hwl'
      cases hwl'
      refine ⟨{ wl with refcnt := n }, by simp, ?_, .inl hpos⟩
      show n = s.users id' + hold'.count id' + leak id'
      omega
    · obtain ⟨hcount', hfound⟩ := hother id' hid
      exact ⟨wl', by simpa only [update_of_ne hid] using hwl', hcount' ▸ hcount,
        .inl (hpos'.resolve_right hfound)⟩
  · intro id' hid'
    obtain ⟨hnone, hrest⟩ := h.fresh id' hid'
    have hid : id' ≠ id := fun he => by rw [he, hwl] at hnone; cases hnone
    exact ⟨by simpa only [update_of_ne hid] using hnone, hrest⟩
  · intro id' hid'
    refine (h.owned id' hid').imp_right fun ⟨hf, hnone⟩ => ⟨hf, ?_⟩
    have hid : id' ≠ id := fun he => by rw [he, hwl] at hnone; cases hnone
    simpa only [update_of_ne hid] using hnone

/-- A changed count leaves the lists alone. -/
theorem Linked.setRefcnt (h : Linked s q moving) (hwl : s.waitlist id = some wl) (n : Nat) :
    Linked { s with waitlist := update s.waitlist id (some { wl with refcnt := n }) } q
      moving := by
  refine h.congr rfl (fun _ _ => Iff.rfl) (fun _ => rfl) fun id' wl' hwl' => ?_
  by_cases hid : id' = id
  · subst hid
    simp only [update_self, Option.some.injEq] at hwl'
    exact ⟨wl, hwl, by rw [← hwl']⟩
  · simp only [update_of_ne hid] at hwl'
    exact ⟨wl', hwl', rfl⟩

theorem total_retain (hL : Linked s q []) (hC : Counted s (.found id) leak)
    (ha : s.lookup addr = some id) :
    Total (retain id) (fun _ s' => Untouched s s' ∧ Linked s' q [] ∧
      Counted s' (.taken id) leak ∧ s'.lookup addr = some id) s := by
  obtain ⟨wl, hwl, -, -⟩ := hC.count addr id ha
  simp only [retain, wp_bind]
  refine (total_getWaitlist hwl).mpr ⟨⟨rfl, rfl, rfl, rfl, rfl, rfl⟩, hL.setRefcnt hwl _,
    hC.setRefcnt hwl ?_ (Nat.succ_pos _) ?_, ha⟩
  · simp [Hold.count]
  · intro id' hid
    exact ⟨by simp [Hold.count, Ne.symm hid], by simp [Ne.symm hid]⟩

/-- The last reference goes, and with it the waitlist. -/
theorem Counted.freed (h : Counted s (.taken id) leak)
    (ha : s.lookup addr = some id) (hwl : s.waitlist id = some wl) (hlast : wl.refcnt = 1)
    {w : Option (Waitlist T)} :
    Counted { s with
      waitlist := update (update s.waitlist id w) id none
      futexMap := s.futexMap.map fun map => update map addr none
      freed := s.freed ++ [id] } .none leak := by
  obtain ⟨wl', hwl', hcount, -⟩ := h.count addr id ha
  rw [hwl] at hwl'
  cases hwl'
  have hzero : s.users id = 0 := by
    simp only [Hold.count, if_true] at hcount
    omega
  have hlook : ∀ a, (s.futexMap.map fun map => update map addr none).bind
      (fun map => map a) = if a = addr then none else s.lookup a := by
    intro a
    by_cases haa : a = addr
    · cases hm : s.futexMap <;> simp [haa]
    · cases hm : s.futexMap <;> simp [haa, State.lookup, hm]
  have hne : ∀ a id', (if a = addr then none else s.lookup a) = some id' →
      s.lookup a = some id' ∧ id' ≠ id := by
    intro a id' hl
    split at hl
    case isTrue => cases hl
    case isFalse haa =>
      refine ⟨hl, ?_⟩
      rintro rfl
      exact haa (h.key a addr id' hl ha)
  refine ⟨?_, ?_, ?_, ?_, ?_⟩
  · intro u call a id' stage hu
    have hl := h.entry u call a id' stage hu
    refine (hlook a).trans ?_
    rw [if_neg, hl]
    rintro rfl
    have hid : id' = id := by simpa [ha] using hl.symm
    refine Count.count_eq_zero_iff.mp hzero u ?_
    have hu : s.thread u = .waiting call a id' stage := hu
    rw [hu]
    exact hid
  · intro a id' hl
    obtain ⟨hl, hid⟩ := hne a id' ((hlook a).symm.trans hl)
    obtain ⟨wl', hwl', hcount', hpos'⟩ := h.count a id' hl
    refine ⟨wl', by simpa only [update_of_ne hid] using hwl', ?_, .inl
      (hpos'.resolve_right (by simp))⟩
    show wl'.refcnt = s.users id' + 0 + leak id'
    simpa [Hold.count, Ne.symm hid] using hcount'
  · intro a b id' hla hlb
    exact h.key a b id' (hne a id' ((hlook a).symm.trans hla)).1
      (hne b id' ((hlook b).symm.trans hlb)).1
  · intro id' hid'
    obtain ⟨hnone, hf, hleak⟩ := h.fresh id' hid'
    have hid : id' ≠ id := fun he => by rw [he, hwl] at hnone; cases hnone
    refine ⟨by simpa only [update_of_ne hid] using hnone, ?_, hleak⟩
    rw [count_freed, if_neg (Ne.symm hid), hf]
  · intro id' hid'
    by_cases hid : id' = id
    · subst hid
      refine .inr ⟨?_, by simp⟩
      have hf : s.freed.count id' = 0 := by
        rcases h.owned id' hid' with ⟨_, -, hf⟩ | ⟨-, hnone⟩
        · exact hf
        · rw [hwl] at hnone; cases hnone
      rw [count_freed, hf, if_pos rfl]
    · rw [count_freed, if_neg (Ne.symm hid), Nat.add_zero]
      simp only [update_of_ne hid]
      refine (h.owned id' hid').imp_left ?_
      rintro ⟨a, hl, hf⟩
      refine ⟨a, (hlook a).trans ?_, hf⟩
      rw [if_neg, hl]
      rintro rfl
      exact hid (by simpa [ha] using hl.symm)

theorem total_releaseFutexEntry (hL : Linked s q []) (hC : Counted s (.taken id) leak) (ha : s.lookup addr = some id) :
    Total (releaseFutexEntry addr id) (fun _ s' => Untouched s s' ∧ Linked s' q [] ∧
      Counted s' .none leak) s := by
  obtain ⟨wl, hwl, hcount, -⟩ := hC.count addr id ha
  have hpos : 0 < wl.refcnt := by simp only [Hold.count, if_true] at hcount; omega
  simp only [releaseFutexEntry, wp_bind]
  refine (total_getWaitlist hwl).mpr ?_
  simp only [total_setWaitlist]
  by_cases hlast : 0 < wl.refcnt - 1
  · rw [if_pos hlast]
    refine ⟨⟨rfl, rfl, rfl, rfl, rfl, rfl⟩, hL.setRefcnt hwl _, hC.setRefcnt hwl ?_ hlast ?_⟩
    · simp only [Hold.count, if_true]
      omega
    · intro id' hid
      exact ⟨by simp [Hold.count, Ne.symm hid], by simp⟩
  · rw [if_neg hlast]
    have hnil : q id = [] := hL.eq_nil (by simp only [Hold.count, if_true] at hcount; omega)
    simp only [wp_bind, total_assert, wp_modify, free, total_setWaitlist]
    refine ⟨?_, ⟨rfl, rfl, rfl, rfl, rfl, rfl⟩, ⟨?_, hL.mem⟩, hC.freed ha hwl (by omega)⟩
    · rw [(hL.lists id wl hwl).head, hnil]
      rfl
    · intro id' wl' hwl'
      by_cases hid : id' = id
      · subst hid
        simp only [update_self] at hwl'
        cases hwl'
      · simp only [update_of_ne hid] at hwl'
        exact hL.lists id' wl' hwl'

/-- A reference that is not given back is lost. -/
theorem Counted.lose (h : Counted s (.taken id) leak)
    (ha : s.lookup addr = some id) :
    Counted s .none (update leak id (leak id + 1)) := by
  refine ⟨h.entry, ?_, h.key, ?_, h.owned⟩
  · intro a id' hl
    obtain ⟨wl, hwl, hcount, hpos⟩ := h.count a id' hl
    refine ⟨wl, hwl, ?_, .inl (hpos.resolve_right (by simp))⟩
    by_cases hid : id' = id
    · subst hid
      simp only [Hold.count, if_true, update_self] at hcount ⊢
      omega
    · simp only [Hold.count, Ne.symm hid, if_false, update_of_ne hid] at hcount ⊢
      exact hcount
  · intro id' hid'
    have hid : id' ≠ id := by
      have := h.lt_of_lookup ha
      omega
    simpa only [update_of_ne hid] using h.fresh id' hid'

end WasiLibc.Futex

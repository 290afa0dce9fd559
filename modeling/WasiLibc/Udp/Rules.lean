import WasiLibc.Udp.Calls

/-!
# WasiLibc.Udp.Rules

What a step of a thread must keep, and the rules for the building blocks of
the calls.

`Inv` is about locks, flags and roles: nobody is at a blocking lock while a
thread closes the streams, or while there are none.  `Data` is about the
subtasks and their results.  While a thread `t` runs, `Mid s₀ t r s` relates
the state `s` to the state `s₀` in which the step began, with `r` as the role
of `t`; at a switch point `Good` holds.
-/

namespace WasiLibc.Udp

open Function Futex Wp

variable {T : Threads} {α : Type} {ok : Fault → Prop}

/-- `f` run from `s` ends in `Q`, or stops with a fault that `ok` admits: none
of libc's own, and at most that the host does not act so. -/
abbrev Runs (ok : Fault → Prop) (f : M T α) (Q : α → State T → Prop) (s : State T) : Prop :=
  wp ok f Q s

/-! ## Locks and flags -/

/-- Nobody is blocked on or queued at a blocking lock. -/
def Empty (role : Tid T → Role) : Prop := ∀ u d, (role u).at_ (.blocking d) = .outside

/-- Locks and flags are as the roles say. -/
structure Inv (h : Halves T) (streaming : Bool) (role : Tid T → Role) : Prop where
  halves : h.Inv role
  clear : ∀ u d, (role u).clear d = true → (role u).at_ .object = .holding ∧ Empty role
  absent : streaming = false → Empty role

section

variable {h h' : Halves T} {streaming : Bool} {role : Tid T → Role} {t : Tid T} {r r' : Role}
  {d : Dir}

/-- Only the thread that holds the socket's lock may be closing the streams. -/
theorem Inv.not_clear (hi : Inv h streaming (update role t r))
    (ht : r.at_ .object = .holding) {u : Tid T} (hu : u ≠ t) : (role u).clear d = false := by
  by_contra hc
  have hholds := (hi.clear u d (by simpa [hu] using hc)).1
  exact hu ((hi.halves.locks .object).unique u t hholds (by simpa [standings] using ht))

theorem empty_update (hempty : Empty (update role t r))
    (hr : ∀ d, r'.at_ (.blocking d) = .outside) : Empty (update role t r') := by
  intro u d
  by_cases hu : u = t
  · subst hu; simpa using hr d
  · have := hempty u d
    simpa [hu] using this

/-- An act of one thread, which comes to a blocking lock only with the
socket's lock and while there are streams. -/
theorem Inv.act (hi : Inv h streaming (update role t r))
    (hh : h'.Inv (update role t r'))
    (hin : ∀ d, r'.at_ (.blocking d) ≠ .outside → r.at_ (.blocking d) = .outside →
      r.at_ .object = .holding ∧ streaming = true)
    (hclear : ∀ d, r'.clear d = false) : Inv h' streaming (update role t r') := by
  have hempty : (r.at_ .object = .holding → streaming = false) →
      Empty (update role t r) → Empty (update role t r') := by
    intro hno hempty
    refine empty_update hempty fun d => ?_
    by_contra hd
    have hr : r.at_ (.blocking d) = .outside := by
      have := hempty t d
      simpa using this
    obtain ⟨hholds, hs⟩ := hin d hd hr
    rw [hno hholds] at hs
    cases hs
  refine ⟨hh, fun u d hu => ?_, fun hs => hempty (fun _ => hs) (hi.absent hs)⟩
  by_cases hut : u = t
  · subst hut
    simp [hclear] at hu
  · have hc := hi.clear u d (by simpa [hut] using hu)
    refine ⟨by simpa [hut] using hc.1, hempty (fun hholds => ?_) hc.2⟩
    have := hi.not_clear hholds hut (d := d)
    rw [update_of_ne hut] at hu
    rw [this] at hu
    cases hu

/-- A thread that has found the locks unused begins to close the streams. -/
theorem Inv.setClear (hi : Inv h streaming (update role t r)) {c : Dir → Bool}
    (hc : ∀ d, c d = true → r.at_ .object = .holding ∧ Empty (update role t r)) :
    Inv h streaming (update role t { r with clear := c }) := by
  have hsame : ∀ u, (update role t { r with clear := c } u).at_ =
      (update role t r u).at_ := by
    intro u
    by_cases hu : u = t
    · subst hu; simp
    · simp [hu]
  have hempty : Empty (update role t r) →
      Empty (update role t { r with clear := c }) := by
    intro hempty u d
    rw [hsame]
    exact hempty u d
  refine ⟨hi.halves.congr hsame, fun u d hu => ?_, fun hs => hempty (hi.absent hs)⟩
  by_cases hut : u = t
  · subst hut
    have := hc d (by simpa using hu)
    exact ⟨by simpa using this.1, hempty this.2⟩
  · have := hi.clear u d (by simpa [hut] using hu)
    exact ⟨by simpa [hut] using this.1, hempty this.2⟩

/-- The streams are closed or made while nobody is at a blocking lock. -/
theorem Inv.setStreaming (hi : Inv h streaming role) {b : Bool} (hb : b = false → Empty role) :
    Inv h b role :=
  ⟨hi.halves, hi.clear, hb⟩

/-- The blocking locks are free if and only if nobody is at them. -/
theorem Inv.empty_iff (hi : Inv h streaming role) :
    Empty role ↔ ∀ d, (h.lock (.blocking d)).word = 0 := by
  constructor
  · intro hempty d
    have hlock := hi.halves.locks (.blocking d)
    have hcount : Lock.waiting (standings role (.blocking d)) = 0 :=
      Count.count_eq_zero_iff.mpr fun u => by simp [standings, hempty u d]
    rw [hlock.free fun u => by simp [standings, hempty u d], hcount]
    rfl
  · intro hword u d
    have hlock := hi.halves.locks (.blocking d)
    have hfree := hlock.word_nonneg_iff.mp (hword d).ge
    have hcount : Lock.waiting (standings role (.blocking d)) = 0 := by
      have := hlock.free hfree
      rw [hword d] at this
      exact_mod_cast this.symm
    cases hat : (role u).at_ (.blocking d) with
    | outside => rfl
    | waiting => exact absurd hat (Count.count_eq_zero_iff.mp hcount u)
    | holding => exact absurd hat (hfree u)

end

/-! ## Subtasks -/

/-- The subtasks and their results fit together. -/
structure Data (st : Streams) (sends : List Sent) : Prop where
  pending : ∀ k, st.sendSubtask = some k → ∃ call data, sends[k]? = some ⟨call, data, .pending⟩
  ready : st.sendReady = true → st.sendSubtask = none
  copy : st.copy = true → st.sendSubtask.isSome = true ∨ st.sendReady = true
  recvReady : st.recvReady = true → st.recvSubtask = false
  blockedSend : st.blocking .write = true → st.sendSubtask.isSome = true
  blockedRecv : st.blocking .read = true → st.recvSubtask = true

theorem data_zero (sends : List Sent) : Data .zero sends :=
  ⟨nofun, nofun, nofun, nofun, nofun, nofun⟩

/-- What a thread that waits with the socket's lock relies on. -/
def Phase.Relies (s : State T) : Phase → Prop
  | .waiting (.cancelSend c k) =>
    s.sends[k]? = some ⟨c.id, c.data, .pending⟩ ∧ s.tag.streaming = true ∧
      s.streams.sendSubtask = none ∧ s.streams.sendReady = false ∧ s.streams.copy = false
  | .waiting (.closeSend _ _) => s.streams.sendSubtask.isSome = true
  | _ => True

/-! ## Steps -/

/-- A phase that a thread can be in: the halves that it owns are different, and
only a bounce waits for a blocking lock. -/
def Phase.Formed (p : Phase) : Prop :=
  match p with
  | .idle => True
  | .locking .object (.bounced _) => False
  | .locking .object (.begin _ (.poll _)) => False
  | .locking .object (.register _ todo regs) => todo ≠ [] ∧ regs.Nodup
  | .locking .object k => k.owned.Nodup
  | .locking (.blocking d) (.bounced c) => c.dir = d
  | .locking (.blocking _) _ => False
  | .waiting w => w.owned.Nodup

namespace State

/-- What the threads share, apart from data. -/
def halves (s : State T) : Halves T := ⟨s.lock, s.streams.blocking⟩

def setLock (s : State T) (l : LockId) (lk : Lock T) : State T :=
  { s with lock := update s.lock l lk }

def unlocked (s : State T) (l : LockId) : State T := s.setLock l (s.lock l).unlock

def parked (s : State T) (t : Tid T) (p : Phase) : State T :=
  { s with thread := update s.thread t p }

def setStreams (s : State T) (st : Streams) : State T := { s with streams := st }

end State

/-- The invariant at switch points. -/
structure Good (s : State T) : Prop where
  inv : Inv s.halves s.tag.streaming s.roles
  data : Data s.streams s.sends
  formed : ∀ u, (s.thread u).Formed
  relies : ∀ u, (s.thread u).Relies s
  clean : ∀ z ∈ s.torn, z.Clean

/-- A step has been taken. -/
structure Ended (s₀ : State T) (t : Tid T) (s : State T) : Prop where
  good : Good s
  others : ∀ u, u ≠ t → s.thread u = s₀.thread u
  /-- Only a flag that was set makes the thread wait for a blocking lock. -/
  bounces : ∀ d k, s.thread t = .locking (.blocking d) k → s₀.streams.blocking d = true

/-- A thread is running. -/
structure Mid (s₀ : State T) (t : Tid T) (r : Role) (s : State T) : Prop where
  inv : Inv s.halves s.tag.streaming (update s₀.roles t r)
  flags : ∀ d, s.streams.blocking d = true → r.at_ (.blocking d) = .holding ∨
    s₀.streams.blocking d = true
  data : Data s.streams s.sends
  formed : ∀ u, (s₀.thread u).Formed
  relies : ∀ u, u ≠ t → (s₀.thread u).Relies s
  thread : s.thread = s₀.thread
  clean : ∀ z ∈ s.torn, z.Clean

section

variable {s₀ s s' : State T} {t : Tid T} {r r' : Role} {owned : List Dir} {d : Dir} {p : Phase}

theorem Good.mid (h : Good s) (t : Tid T) : Mid s t (s.roles t) s where
  inv := by
    rw [update_eq_self]
    exact h.inv
  flags := fun _ => .inr
  data := h.data
  formed := h.formed
  relies := fun u _ => h.relies u
  thread := rfl
  clean := h.clean

/-- What the locks and flags do not touch. -/
def State.rest (s : State T) := (s.streams, s.sends, s.tag, s.thread, s.torn)

/-- An act on locks and flags. -/
theorem Mid.act (h : Mid s₀ t r s)
    (hinv : Inv s'.halves s'.tag.streaming (update s₀.roles t r'))
    (hat : ∀ d, r.at_ (.blocking d) = .holding → r'.at_ (.blocking d) = .holding)
    (hrest : s'.rest = s.rest) : Mid s₀ t r' s' := by
  simp only [State.rest, Prod.mk.injEq] at hrest
  obtain ⟨hstreams, hsends, htag, hthread, htorn⟩ := hrest
  constructor
  case inv => exact hinv
  case flags => exact fun d hd => (h.flags d (hstreams ▸ hd)).imp_left (hat d)
  case data =>
    rw [hstreams, hsends]
    exact h.data
  case formed => exact h.formed
  case relies =>
    intro u hu
    have := h.relies u hu
    revert this
    cases s₀.thread u with
    | waiting w => cases w <;> simp [Phase.Relies, hstreams, hsends, htag]
    | _ => exact id
  case thread => exact hthread.trans h.thread
  case clean => exact htorn ▸ h.clean

/-- Another thread does not wait with the socket's lock while this one has
it. -/
theorem Mid.alone (h : Mid s₀ t r s) (ht : r.at_ .object = .holding) {u : Tid T} (hu : u ≠ t) :
    (s₀.thread u).Relies s' := by
  have hunique := (h.inv.halves.locks .object).unique
  have hholds : (s₀.thread u).role.at_ .object ≠ .holding := by
    intro hat
    refine hu (hunique u t ?_ ?_)
    · simpa [standings, State.roles, hu] using hat
    · simpa [standings] using ht
  cases hp : s₀.thread u with
  | waiting w => cases w <;> first | trivial | simp [hp, Phase.role, Wait.holds] at hholds
  | _ => trivial

/-- What there is beside the data. -/
def State.frame (s : State T) := (s.streams.blocking, s.lock, s.tag, s.thread, s.torn)

/-- An act on the data, under the socket's lock. -/
theorem Mid.setData (h : Mid s₀ t r s) (ht : r.at_ .object = .holding)
    (hdata : Data s'.streams s'.sends) (hframe : s'.frame = s.frame) : Mid s₀ t r s' := by
  simp only [State.frame, Prod.mk.injEq] at hframe
  obtain ⟨hblocking, hlock, htag, hthread, htorn⟩ := hframe
  constructor
  case inv =>
    have hhalves : s'.halves = s.halves := by rw [State.halves, State.halves, hblocking, hlock]
    rw [hhalves, htag]
    exact h.inv
  case flags => rw [hblocking]; exact h.flags
  case data => exact hdata
  case formed => exact h.formed
  case relies => exact fun _ hu => h.alone ht hu
  case thread => exact hthread.trans h.thread
  case clean => exact htorn ▸ h.clean

/-- There are streams while a flag is set. -/
theorem Mid.streaming (h : Mid s₀ t r s) (hb : s.streams.blocking d = true) :
    s.tag.streaming = true := by
  obtain ⟨u, hu⟩ := (h.inv.halves.blocked d).mp hb
  by_contra hs
  rw [h.inv.absent (by simpa using hs) u d] at hu
  cases hu

/-! ### Stopping -/

/-- What is read off the phases when the thread has stopped. -/
theorem State.comp_parked {β : Type} (f : Phase → β) (hthread : s.thread = s₀.thread) :
    (fun u => f ((s.parked t p).thread u)) = update (fun u => f (s₀.thread u)) t (f p) := by
  rw [← hthread]
  exact comp_update f s.thread t p

theorem State.forall_parked {P : Phase → Prop} (hthread : s.thread = s₀.thread) (hp : P p)
    (h : ∀ u, u ≠ t → P (s₀.thread u)) (u : Tid T) : P ((s.parked t p).thread u) :=
  (forall_update_iff s.thread fun _ => P).mpr ⟨hp, hthread ▸ h⟩ u

/-- The thread stops. -/
theorem Mid.park (h : Mid s₀ t p.role s) (hformed : p.Formed) (hrelies : p.Relies s)
    (hbounces : ∀ d k, p = .locking (.blocking d) k → s₀.streams.blocking d = true) :
    Ended s₀ t (s.parked t p) := by
  have hroles : (s.parked t p).roles = update s₀.roles t p.role :=
    State.comp_parked Phase.role h.thread
  refine ⟨⟨hroles ▸ h.inv, h.data, State.forall_parked h.thread hformed fun u _ => h.formed u,
    State.forall_parked (P := fun p => p.Relies s) h.thread hrelies h.relies, h.clean⟩,
    fun u hu => ?_, ?_⟩
  · simp [State.parked, hu, h.thread]
  · simpa [State.parked] using hbounces

theorem role_idle : Phase.idle.role = role .outside [] none := by
  ext l
  · cases l <;> simp [Phase.role, role]
  · rfl
  · rfl

variable {k : Cont} {Q : PUnit → State T → Prop}

theorem role_locking :
    (Phase.locking .object k).role = role .waiting k.owned none := by
  ext l
  · cases l <;> simp [Phase.role, role]
  · rfl
  · rfl

theorem role_waiting {w : Wait} (hc : w.closes = false) :
    (Phase.waiting w).role = role (if w.holds then .holding else .outside) w.owned none := by
  ext l
  · cases l <;> simp [Phase.role, role]
  · rfl
  · simp [Phase.role, role, hc]

/-- The call of the thread returns. -/
theorem Mid.finish (h : Mid s₀ t (role .outside [] none) s) (id : Nat)
    (result : Except Errno Nat) :
    Runs ok (finish t id result) (fun _ s' => Ended s₀ t s') s := by
  have h : Mid s₀ t Phase.idle.role
      { s with returned := update s.returned id (some result) } :=
    role_idle ▸ h.act h.inv (fun _ hat => hat) rfl
  exact h.park trivial trivial nofun

/-! ### The socket's lock -/

theorem runs_unlock {l : LockId} :
    Runs ok (unlock l) Q s ↔ Q ⟨⟩ (s.unlocked l) := Iff.rfl

theorem Mid.unlockObject (h : Mid s₀ t (role .holding owned none) s) :
    Mid s₀ t (role .outside owned none) (s.unlocked .object) := by
  have hhalves := h.inv.halves.unlockObject rfl
  rw [role_set_object] at hhalves
  exact h.act (h.inv.act hhalves (fun d hd hr => absurd hr hd) fun _ => rfl) (fun _ => id) rfl

/-- What `STRONG_LOCK` of the socket leads to. -/
def Locked (s₀ : State T) (t : Tid T) (owned : List Dir) (s : State T) (got : Bool)
    (s' : State T) : Prop :=
  if got then
    Mid s₀ t (role .holding owned none) s' ∧ (∃ lk, s' = s.setLock .object lk) ∧
      0 ≤ (s.lock .object).word
  else Ended s₀ t s'

theorem Mid.parkLocking (h : Mid s₀ t (role .waiting owned none) s)
    (howned : k.owned = owned) (hformed : (Phase.locking .object k).Formed) :
    Ended s₀ t (s.parked t (.locking .object k)) := by
  have h : Mid s₀ t (Phase.locking .object k).role s := by
    rw [role_locking, howned]
    exact h
  exact h.park hformed trivial nofun

theorem Mid.lock (h : Mid s₀ t (role .outside owned none) s)
    (howned : k.owned = owned) (hformed : (Phase.locking .object k).Formed) :
    Runs ok (lock t .object k) (Locked s₀ t owned s) s := by
  have hlock := h.inv.halves.locks .object
  have hhalves := h.inv.halves.lockObject (t := t) rfl
  rw [role_set_object] at hhalves
  have hmid : Mid s₀ t (role (Lock.standing ((s.lock .object).lock t).1) owned none)
      (s.setLock .object ((s.lock .object).lock t).2) :=
    h.act (h.inv.act hhalves (fun d hd hr => absurd hr hd) fun _ => rfl) (fun _ => id) rfl
  simp only [Udp.lock, Udp.setLock, wp_bind, wp_get, wp_modify, wp_ite, wp_pure]
  split
  case isTrue hgot =>
    rw [hgot] at hmid
    exact ⟨hmid, ⟨_, rfl⟩, hlock.word_nonneg_iff.mpr (hlock.lock_iff.mp hgot)⟩
  case isFalse hgot =>
    rw [Bool.not_eq_true] at hgot
    rw [hgot] at hmid
    exact hmid.parkLocking howned hformed

/-- The lock is tried again by a thread that was woken. -/
theorem Good.relock (h : Good s) (ht : s.thread t = .locking .object k)
    (hok : ok .host) : Runs ok (relock t .object) (Locked s t k.owned s) s := by
  have hmid := h.mid t
  rw [State.roles, ht, role_locking] at hmid
  have hlock := hmid.inv.halves.locks .object
  simp only [Udp.relock, Udp.setLock, wp_bind, wp_get, wp_require, wp_modify, wp_pure]
  refine ⟨fun hq => ?_, fun _ => hok⟩
  have hhalves := hmid.inv.halves.relockObject rfl hq
  rw [role_set_object] at hhalves
  have hmid : Mid s t (role (Lock.standing ((s.lock .object).relock t).1) k.owned none)
      (s.setLock .object ((s.lock .object).relock t).2) :=
    hmid.act (hmid.inv.act hhalves (fun d hd hr => absurd hr hd) fun _ => rfl) (fun _ => id) rfl
  unfold Locked
  split
  case isTrue hgot =>
    rw [hgot] at hmid
    exact ⟨hmid, ⟨_, rfl⟩, hlock.word_nonneg_iff.mpr (hlock.relock_iff.mp hgot)⟩
  case isFalse hgot =>
    rw [Bool.not_eq_true] at hgot
    rw [hgot] at hmid
    have hgood := hmid.parkLocking rfl (ht ▸ h.formed t)
    have hself : (s.setLock .object ((s.lock .object).relock t).2).parked t
        (.locking .object k) = s.setLock .object ((s.lock .object).relock t).2 := by
      simp [State.parked, State.setLock, ← ht]
    rwa [hself] at hgood

/-! ### Blocking operations -/

/-- After `enterBlocking`. -/
def State.entered (s : State T) (t : Tid T) (d : Dir) : State T :=
  (s.setStreams { s.streams with blocking := update s.streams.blocking d true }).setLock
    (.blocking d) ((s.lock (.blocking d)).lock t).2

/-- After `exitBlocking`. -/
def State.exited (s : State T) (d : Dir) : State T :=
  (s.unlocked (.blocking d)).setStreams
    { s.streams with blocking := update s.streams.blocking d false }

/-- A subtask of the half is active. -/
def Streams.busy (st : Streams) : Dir → Bool
  | .read => st.recvSubtask
  | .write => st.sendSubtask.isSome

theorem Data.setBlocking {st : Streams} {sends : List Sent} (h : Data st sends) {b : Bool}
    (hb : b = true → st.busy d = true) :
    Data { st with blocking := update st.blocking d b } sends := by
  refine ⟨h.pending, h.ready, h.copy, h.recvReady, fun hw => ?_, fun hr => ?_⟩
  · cases d with
    | read => exact h.blockedSend (by simpa using hw)
    | write => exact hb (by simpa using hw)
  · cases d with
    | read => exact hb (by simpa using hr)
    | write => exact h.blockedRecv (by simpa using hr)

theorem runs_enter (h : Mid s₀ t (role .holding owned none) s) (hd : d ∉ owned)
    (hstreaming : s.tag.streaming = true) (hb : s.streams.blocking d = false)
    (hbusy : s.streams.busy d = true)
    (hQ : Mid s₀ t (role .holding (owned ++ [d]) none) (s.entered t d) → Q ⟨⟩ (s.entered t d)) :
    Runs ok (enterBlocking t d) Q s := by
  have hgot : ((s.lock (.blocking d)).lock t).1 = true := h.inv.halves.enter_got hb
  have hhalves := h.inv.halves.enter (d := d) hb (by simp [hd])
  rw [role_enter] at hhalves
  have hinv := h.inv.act hhalves (fun _ _ _ => ⟨rfl, hstreaming⟩) fun _ => rfl
  simp only [enterBlocking, getStreams, modifyStreams, Udp.setLock, wp_bind, wp_get, wp_pure,
    wp_require, wp_modify, hb, hstreaming]
  refine ⟨fun _ => ⟨fun _ => ⟨fun _ => hQ ?_, fun hn => absurd hgot hn⟩, by simp⟩, by simp⟩
  refine ⟨hinv, fun d' hd' => ?_, h.data.setBlocking fun _ => hbusy, h.formed,
    fun _ hu => h.alone rfl hu, h.thread, h.clean⟩
  by_cases hne : d' = d
  · subst hne; simp
  · refine (h.flags d' ?_).imp_left fun hat => ?_
    · simpa [State.entered, State.setStreams, State.setLock, hne] using hd'
    · simpa [hne] using hat

theorem runs_exit (h : Mid s₀ t (role .holding (d :: owned) none) s) (hd : d ∉ owned)
    (hQ : Mid s₀ t (role .holding owned none) (s.exited d) → Q ⟨⟩ (s.exited d)) :
    Runs ok (exitBlocking d) Q s := by
  have hb : s.streams.blocking d = true :=
    (h.inv.halves.blocked d).mpr ⟨t, by simp⟩
  have hstreaming := h.streaming hb
  have hhalves := h.inv.halves.exit (d := d) (by simp)
  rw [role_exit hd] at hhalves
  have hinv := h.inv.act hhalves (fun d' hd' hr => ?_) fun _ => rfl
  · simp only [exitBlocking, unlock, getStreams, modifyStreams, Udp.setLock, wp_bind, wp_get,
      wp_pure, wp_require, wp_modify, hb, hstreaming]
    refine ⟨fun _ => ⟨fun _ => hQ ?_, by simp⟩, by simp⟩
    refine ⟨hinv, fun d' hd' => ?_, h.data.setBlocking (by simp), h.formed,
      fun _ hu => h.alone rfl hu, h.thread, h.clean⟩
    have hne : d' ≠ d := by
      rintro rfl
      simp [State.exited, State.setStreams] at hd'
    refine (h.flags d' ?_).imp_left fun hat => ?_
    · simpa [State.exited, State.setStreams, State.unlocked, State.setLock, hne] using hd'
    · simpa [hne] using hat
  · simp only [role_at_blocking, List.mem_cons] at hd' hr
    split at hr
    case isTrue => cases hr
    case isFalse hn =>
      rw [if_neg fun hm => hn (.inr hm)] at hd'
      exact absurd rfl hd'

end

end WasiLibc.Udp

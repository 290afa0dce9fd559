import WasiLibc.Object.Calls
import WasiLibc.Object.Protocol
import WasiLibc.Stream.Frame

/-!
# WasiLibc.Object.Rules

What a step of a thread must keep, and the rules for the building blocks of
the calls.

While a thread `t` runs, `Mid s₀ t may r s` relates the state `s` to the state
`s₀` in which the step began: nobody else's phase has changed, and locks,
flags and counters are as the roles say if that of `t` is `r`.  When it stops,
`Slice s₀ t may s` says what the whole step has done; `may d` tells that the
thread may begin to bounce on `d`.
-/

namespace WasiLibc.Object

open Function Futex Wp

variable {T : Threads} {α : Type}

/-- `f` run from `s` ends in `Q`, unless the host does not act so or the code
for streams fails. -/
abbrev Runs (f : M T α) (Q : α → State T → Prop) (s : State T) : Prop :=
  wp (fun e : Stop => e ≠ .protocol) f Q s

namespace State

/-- A half that is not opened before it is used next: a socket's streams are
opened once, those of a file on demand. -/
def isOpen (s : State T) (io : Stream.IoState) : Bool := s.kind = .tcp ∨ io.stream ≠ 0

/-- What the threads share. -/
def view (s : State T) : View T where
  lock := s.lock
  blocked := fun d => (s.world d).io.blocked
  present := fun d => s.isOpen (s.world d).io
  waiters := s.waiters

end State

/-! ## Roles -/

section

variable {b : Option Dir}

theorem role_idle : Phase.idle.role = role .outside [] none := by
  ext l
  · cases l <;> simp [Phase.role, role]
  · rfl
  · rfl

theorem role_locking_object {k : Cont} {b : Option Dir}
    (hb : (Phase.locking .object k).bounces = b) :
    (Phase.locking .object k).role = role .waiting k.owned b := by
  ext l
  · cases l <;> simp [Phase.role, role]
  · simpa [Phase.role] using congrArg (fun b => _ ∈ b) hb
  · rfl

theorem role_waiting {w : Wait} (hc : ∀ d, w.clear d = false) :
    (Phase.waiting w).role = role (if w.holds then .holding else .outside) w.owned none := by
  ext l
  · cases l <;> simp [Phase.role, role]
  · simp [Phase.role, Phase.bounces]
  · simp [Phase.role, role, hc]

end

/-! ## Files -/

/-- A phase of a thread that uses a file: nothing is ever in progress. -/
def Phase.Plain : Phase → Prop
  | .idle => True
  | .locking _ (.begin (.io _ _)) => True
  | .locking _ (.begin (.seek _ _)) => True
  | .locking _ (.bounced c) => c.blocking = true
  | .locking _ (.retry c) => c.blocking = true
  | .locking _ (.transferEnd _ _ _) => True
  | .waiting (.transfer _ _) => True
  | .waiting (.eof _) => True
  | .waiting (.stat _ _) => True
  | _ => False

/-- A file, which is read and written by blocking calls only. -/
structure Calm (s : State T) : Prop where
  kind : s.kind = .file
  inprogress : ∀ d, (s.world d).io.inprogress = false
  plain : ∀ u, (s.thread u).Plain

/-! ## Steps -/

/-- What a step adds to the log: a state is zeroed while nobody uses it,
unless the thread has flushed the write half and somebody bounced on it when
the step began. -/
def Logged (s₀ : State T) (t : Tid T) (s : State T) : Prop :=
  ∃ new, s.zeroed = new ++ s₀.zeroed ∧ ∀ z ∈ new, z.Clean ∨
    (s₀.thread t).Flushes ∧ z.dir = .write ∧ ¬ z.Clean ∧ 0 < s₀.waiters .write

/-- A phase that a thread can be in: the halves that it owns are different, and
only a bounce waits for a blocking lock. -/
def Phase.Formed (p : Phase) : Prop :=
  p.owned.Nodup ∧
    match p with
    | .locking .object (.bounced _) => False
    | .locking .object (.begin (.poll _)) => False
    | .locking .object (.register todo _) => todo ≠ []
    | .locking (.blocking d) (.bounced c) => c.dir = d
    | .locking (.blocking _) _ => False
    | _ => True

/-- The invariant at switch points. -/
structure Good (s : State T) : Prop where
  inv : Inv s.view s.roles
  formed : ∀ u, (s.thread u).Formed
  file : s.kind = .file → Calm s

/-- A thread is running. -/
structure Mid (s₀ : State T) (t : Tid T) (may : Dir → Prop) (r : Role) (s : State T) : Prop where
  inv : Inv s.view (update s₀.roles t r)
  formed : ∀ u, (s₀.thread u).Formed
  thread : s.thread = s₀.thread
  waiters : ∀ d, s₀.waiters d < s.waiters d → may d
  log : ∃ new, s.zeroed = new ++ s₀.zeroed ∧ ∀ z ∈ new, z.Clean
  kind : s.kind = s₀.kind
  file : s₀.kind = .file → Calm s₀
  calm : Calm s₀ → ∀ d, (s.world d).io.inprogress = false

/-- A step has been taken. -/
structure Slice (s₀ : State T) (t : Tid T) (may : Dir → Prop) (s : State T) : Prop where
  log : Logged s₀ t s
  good : (∀ z ∈ s.zeroed, z.Clean) → Good s
  others : ∀ u, u ≠ t → s.thread u = s₀.thread u
  waiters : ∀ d, s₀.waiters d < s.waiters d → may d
  flush : (s.thread t).Flushes → (s₀.thread t).Flushes ∨ s.waiters .write = 0
  kind : s.kind = s₀.kind

/-! ## States in between -/

namespace State

def setLock (s : State T) (l : LockId) (lk : Lock T) : State T :=
  { s with lock := update s.lock l lk }

def setWorld (s : State T) (d : Dir) (w : Stream.World) : State T :=
  { s with world := update s.world d w }

def setIo (s : State T) (d : Dir) (io : Stream.IoState) : State T :=
  s.setWorld d { s.world d with io := io }

def unlocked (s : State T) (l : LockId) : State T := s.setLock l (s.lock l).unlock

def parked (s : State T) (t : Tid T) (p : Phase) : State T :=
  { s with thread := update s.thread t p }

/-- After `wasip3_enter_blocking_operation`. -/
def entered (s : State T) (t : Tid T) (d : Dir) : State T :=
  (s.setIo d { (s.world d).io with blocked := true }).setLock (.blocking d)
    ((s.lock (.blocking d)).lock t).2

/-- After `wasip3_exit_blocking_operation`. -/
def exited (s : State T) (d : Dir) : State T :=
  (s.unlocked (.blocking d)).setIo d { (s.world d).io with blocked := false }

variable {s : State T} {d d' : Dir} {w : Stream.World} {io : Stream.IoState}

theorem setWorld_world :
    (s.setWorld d w).world d' = if d' = d then w else s.world d' := by
  by_cases h : d' = d
  · subst h; simp [setWorld]
  · simp [setWorld, h]

theorem setIo_io : ((s.setIo d io).world d').io = if d' = d then io else (s.world d').io := by
  rw [setIo, setWorld_world]
  split <;> rfl

theorem view_setWorld : (s.setWorld d w).view =
    { s.view with
      blocked := update s.view.blocked d w.io.blocked
      present := update s.view.present d (s.isOpen w.io) } := by
  have hblocked : (s.setWorld d w).view.blocked =
      update s.view.blocked d w.io.blocked := by
    funext d'
    by_cases hd : d' = d
    · subst hd; simp [view, setWorld]
    · simp [view, setWorld, hd]
  have hpresent : (s.setWorld d w).view.present =
      update s.view.present d (s.isOpen w.io) := by
    funext d'
    by_cases hd : d' = d
    · subst hd; simp [view, setWorld, isOpen]
    · simp [view, setWorld, isOpen, hd]
  show (⟨⟨_, (s.setWorld d w).view.blocked⟩, (s.setWorld d w).view.present, _⟩ : View T) = _
  rw [hblocked, hpresent]
  rfl

/-- The view after a change of a record that keeps the stream. -/
theorem view_setIo (h : io.stream = (s.world d).io.stream) :
    (s.setIo d io).view = s.view.set (s.view.toHalves.setBlocked d io.blocked) := by
  have hpresent : update s.view.present d (s.isOpen io) = s.view.present := by
    rw [update_eq_self_iff, isOpen, h]
    rfl
  rw [setIo, view_setWorld, hpresent]
  rfl

/-- The view after a change that keeps the flag. -/
theorem view_setWorld_present (h : w.io.blocked = (s.world d).io.blocked) :
    (s.setWorld d w).view =
      { s.view with present := update s.view.present d (s.isOpen w.io) } := by
  have hblocked : update s.view.blocked d w.io.blocked = s.view.blocked := by
    rw [update_eq_self_iff, h]
    rfl
  rw [view_setWorld, hblocked]

end State

section

variable {s₀ s s' : State T} {t : Tid T} {r r' : Role} {owned : List Dir} {b : Option Dir}
  {d : Dir} {may : Dir → Prop} {p : Phase}

theorem Good.mid (h : Good s) (t : Tid T) (may : Dir → Prop) :
    Mid s t may (s.roles t) s where
  inv := by
    rw [update_eq_self]
    exact h.inv
  formed := h.formed
  thread := rfl
  waiters := fun _ h => absurd h (lt_irrefl _)
  log := ⟨[], rfl, by simp⟩
  kind := rfl
  file := h.file
  calm := fun h => h.inprogress

/-- An act that the log does not tell of. -/
theorem Mid.act (h : Mid s₀ t may r s) (hinv : Inv s'.view (update s₀.roles t r'))
    (hthread : s'.thread = s.thread) (hwaiters : ∀ d, s'.waiters d ≤ s.waiters d)
    (hlog : s'.zeroed = s.zeroed) (hkind : s'.kind = s.kind)
    (hcalm : Calm s₀ → ∀ d, (s'.world d).io.inprogress = (s.world d).io.inprogress) :
    Mid s₀ t may r' s' where
  inv := hinv
  formed := h.formed
  thread := hthread.trans h.thread
  waiters := fun d hd => h.waiters d (hd.trans_le (hwaiters d))
  log := hlog.symm ▸ h.log
  kind := hkind.trans h.kind
  file := h.file
  calm := fun hc d => (hcalm hc d).trans (h.calm hc d)

/-- What a lock does not touch. -/
def State.rest (s : State T) := (s.thread, s.waiters, s.zeroed, s.kind, s.world)

/-- An act on a lock. -/
theorem Mid.actLock (h : Mid s₀ t may r s) (hinv : Inv s'.view (update s₀.roles t r'))
    (hrest : s'.rest = s.rest) : Mid s₀ t may r' s' := by
  simp only [State.rest, Prod.mk.injEq] at hrest
  obtain ⟨hthread, hwaiters, hlog, hkind, hworld⟩ := hrest
  refine h.act hinv hthread (fun d => ?_) hlog hkind fun _ d => ?_
  · rw [hwaiters]
  · rw [hworld]

/-- An act that does not concern locks, flags and counters. -/
theorem Mid.congr (h : Mid s₀ t may r s) (hview : s'.view = s.view)
    (hthread : s'.thread = s.thread) (hlog : s'.zeroed = s.zeroed) (hkind : s'.kind = s.kind)
    (hcalm : Calm s₀ → ∀ d, (s'.world d).io.inprogress = (s.world d).io.inprogress) :
    Mid s₀ t may r s' :=
  h.act (hview.symm ▸ h.inv) hthread (fun d => le_of_eq (congrFun (congrArg View.waiters hview) d))
    hlog hkind hcalm

/-- An act that concerns nothing of this. -/
theorem Mid.same (h : Mid s₀ t may r s) (hview : s'.view = s.view) (hrest : s'.rest = s.rest) :
    Mid s₀ t may r s' :=
  h.actLock (hview.symm ▸ h.inv) hrest

/-- What only a socket does. -/
theorem Mid.tcp (h : Mid s₀ t may r s) (hcalm : ¬ Calm s₀) : s.kind = .tcp := by
  cases hk : s.kind with
  | tcp => rfl
  | file => exact absurd (h.file (h.kind ▸ hk)) hcalm

/-! ### Stopping -/

/-- What holds of the phases when the thread has stopped. -/
theorem State.forall_parked {P : Phase → Prop} (hthread : s.thread = s₀.thread) (hp : P p)
    (h : ∀ u, P (s₀.thread u)) (u : Tid T) : P ((s.parked t p).thread u) :=
  (forall_update_iff s.thread fun _ => P).mpr ⟨hp, fun u _ => hthread ▸ h u⟩ u

/-- The thread stops. -/
theorem Mid.park (h : Mid s₀ t may p.role s) (hformed : p.Formed)
    (hflush : p.Flushes → (s₀.thread t).Flushes ∨ s.waiters .write = 0)
    (hplain : Calm s₀ → p.Plain) : Slice s₀ t may (s.parked t p) where
  log := by
    obtain ⟨new, hnew, hclean⟩ := h.log
    exact ⟨new, hnew, fun z hz => .inl (hclean z hz)⟩
  good := fun _ => by
    have hroles : (s.parked t p).roles = update s₀.roles t p.role :=
      (comp_update Phase.role s.thread t p).trans (by rw [h.thread]; rfl)
    refine ⟨hroles ▸ h.inv, State.forall_parked h.thread hformed h.formed, fun hk => ?_⟩
    have hc : Calm s₀ := h.file (h.kind ▸ hk)
    exact ⟨hk, h.calm hc, State.forall_parked h.thread (hplain hc) hc.plain⟩
  others := fun u hu => by simp [State.parked, hu, h.thread]
  waiters := h.waiters
  flush := fun hf => hflush (by simpa [State.parked] using hf)
  kind := h.kind

/-- The call of the thread returns. -/
theorem Mid.finish (h : Mid s₀ t may (role .outside [] none) s) (result : Except Errno Int) :
    Runs (finish t result) (fun _ s' => Slice s₀ t may s') s := by
  have hidle : Mid s₀ t may Phase.idle.role s := role_idle ▸ h
  have hsame : Mid s₀ t may Phase.idle.role
      { s with returned := update s.returned t (some result) } := hidle.same rfl rfl
  exact hsame.park ⟨List.nodup_nil, trivial⟩ nofun fun _ => trivial

/-! ### The object's lock -/

variable {Q : PUnit → State T → Prop} {k : Cont}

theorem runs_unlock {l : LockId} :
    Runs (unlock l) Q s ↔ Q ⟨⟩ (s.unlocked l) := Iff.rfl

theorem Mid.unlockObject (h : Mid s₀ t may (role .holding owned b) s) :
    Mid s₀ t may (role .outside owned b) (s.unlocked .object) := by
  have hinv := h.inv.unlockObject rfl fun _ => rfl
  rw [role_set_object] at hinv
  exact h.actLock hinv rfl

/-- What `STRONG_LOCK` of the object leads to. -/
def Locked (s₀ : State T) (t : Tid T) (owned : List Dir) (b : Option Dir) (may : Dir → Prop)
    (s : State T) (got : Bool) (s' : State T) : Prop :=
  if got then
    Mid s₀ t may (role .holding owned b) s' ∧ (∃ lk, s' = s.setLock .object lk) ∧
      0 ≤ (s.lock .object).word
  else Slice s₀ t may s'

/-- A thread that waits for the object's lock. -/
theorem Mid.parkLocking (h : Mid s₀ t may (role .waiting owned b) s)
    (howned : k.owned = owned) (hbounces : (Phase.locking .object k).bounces = b)
    (hformed : (Phase.locking .object k).Formed)
    (hflush : (Phase.locking .object k).Flushes → (s₀.thread t).Flushes ∨ s.waiters .write = 0)
    (hplain : Calm s₀ → (Phase.locking .object k).Plain) :
    Slice s₀ t may (s.parked t (.locking .object k)) := by
  have h : Mid s₀ t may (Phase.locking .object k).role s := by
    rw [role_locking_object hbounces, howned]
    exact h
  exact h.park hformed hflush hplain

theorem Mid.lock (h : Mid s₀ t may (role .outside owned b) s)
    (howned : k.owned = owned) (hbounces : (Phase.locking .object k).bounces = b)
    (hformed : (Phase.locking .object k).Formed)
    (hflush : (Phase.locking .object k).Flushes → (s₀.thread t).Flushes ∨ s.waiters .write = 0)
    (hplain : Calm s₀ → (Phase.locking .object k).Plain) :
    Runs (lock t .object k) (Locked s₀ t owned b may s) s := by
  have hinv := h.inv.lockObject rfl fun _ => rfl
  rw [role_set_object] at hinv
  have hmid : Mid s₀ t may (role (Lock.standing ((s.lock .object).lock t).1) owned b)
      (s.setLock .object ((s.lock .object).lock t).2) := h.actLock hinv rfl
  have hlock := h.inv.halves.locks .object
  have hword := hlock.word_nonneg_iff
  simp only [Object.lock, Object.setLock, wp_bind, wp_get, wp_modify, wp_ite, wp_pure]
  split
  case isTrue hgot =>
    rw [hgot] at hmid
    exact ⟨hmid, ⟨_, rfl⟩, hword.mpr (hlock.lock_iff.mp hgot)⟩
  case isFalse hgot =>
    rw [Bool.not_eq_true] at hgot
    rw [hgot] at hmid
    exact hmid.parkLocking howned hbounces hformed hflush hplain

/-- The lock is tried again by a thread that was woken. -/
theorem Good.relock (h : Good s) (ht : s.thread t = .locking .object k)
    (hbounces : (Phase.locking .object k).bounces = b) :
    Runs (relock t .object) (Locked s t k.owned b may s) s := by
  have hrole : s.roles t = role .waiting k.owned b := by
    rw [State.roles, ht]
    exact role_locking_object hbounces
  have hmid := h.mid t may
  rw [hrole] at hmid
  have hlock := hmid.inv.halves.locks .object
  have hword := hlock.word_nonneg_iff
  simp only [Object.relock, Object.setLock, wp_bind, wp_get, wp_require, wp_modify, wp_pure]
  refine ⟨fun hq => ?_, fun _ => by simp⟩
  have hinv := hmid.inv.relockObject rfl (fun _ => rfl) hq
  rw [role_set_object] at hinv
  have hmid : Mid s t may (role (Lock.standing ((s.lock .object).relock t).1) k.owned b)
      (s.setLock .object ((s.lock .object).relock t).2) := hmid.actLock hinv rfl
  unfold Locked
  split
  case isTrue hgot =>
    rw [hgot] at hmid
    exact ⟨hmid, ⟨_, rfl⟩, hword.mpr (hlock.relock_iff.mp hgot)⟩
  case isFalse hgot =>
    rw [Bool.not_eq_true] at hgot
    rw [hgot] at hmid
    have hslice := hmid.parkLocking rfl hbounces (ht ▸ h.formed t)
      (fun hf => .inl (ht ▸ hf)) fun hc => ht ▸ hc.plain t
    have hself : (s.setLock .object ((s.lock .object).relock t).2).parked t
        (.locking .object k) = s.setLock .object ((s.lock .object).relock t).2 := by
      simp [State.parked, State.setLock, ← ht]
    rwa [hself] at hslice

/-! ### Blocking operations -/

theorem runs_enter (h : Mid s₀ t may (role .holding owned b) s) (hd : d ∉ owned)
    (hb : (s.world d).io.blocked = false) (hp : s.isOpen (s.world d).io = true)
    (hQ : Mid s₀ t may (role .holding (owned ++ [d]) b) (s.entered t d) → Q ⟨⟩ (s.entered t d)) :
    Runs (enterBlockingOperation t d) Q s := by
  have hgot : ((s.lock (.blocking d)).lock t).1 = true := h.inv.halves.enter_got hb
  have hinv := h.inv.enter (d := d) rfl (by simp [hd]) hb
    hp fun _ => rfl
  rw [role_enter] at hinv
  simp only [enterBlockingOperation, getIo, modifyIo, Object.setLock, wp_bind, wp_get, wp_pure,
    wp_require, wp_modify, hb]
  refine ⟨fun _ => ⟨fun _ => hQ (h.act ?_ rfl (fun _ => le_rfl) rfl rfl ?_),
    fun hn => absurd hgot hn⟩, by simp⟩
  · have hview : (s.entered t d).view = s.view.set ((s.view.toHalves.setBlocked d true).setLock
        (.blocking d) ((s.lock (.blocking d)).lock t).2) := by
      have hio := @State.view_setIo _ s d { (s.world d).io with blocked := true } rfl
      show ((s.setIo d _).view.set ((s.setIo d _).view.toHalves.setLock _ _)) = _
      rw [hio]
      rfl
    rw [hview]
    exact hinv
  · intro _ d'
    by_cases hne : d' = d
    · subst hne; simp [State.entered, State.setIo, State.setWorld, State.setLock]
    · simp [State.entered, State.setIo, State.setWorld, State.setLock, hne]

theorem runs_exit (h : Mid s₀ t may (role .holding (d :: owned) b) s) (hd : d ∉ owned)
    (hQ : Mid s₀ t may (role .holding owned b) (s.exited d) → Q ⟨⟩ (s.exited d)) :
    Runs (exitBlockingOperation d) Q s := by
  have hb : (s.world d).io.blocked = true :=
    (h.inv.halves.blocked d).mpr ⟨t, by simp⟩
  have hinv := h.inv.exit (d := d) (by simp) fun _ => rfl
  rw [role_exit hd] at hinv
  simp only [exitBlockingOperation, unlock, getIo, modifyIo, Object.setLock, wp_bind, wp_get,
    wp_pure, wp_require, wp_modify, hb]
  refine ⟨fun _ => hQ (h.act ?_ rfl (fun _ => le_rfl) rfl rfl ?_), by simp⟩
  · have hview : (s.exited d).view = s.view.set ((s.view.toHalves.setLock (.blocking d)
        (s.lock (.blocking d)).unlock).setBlocked d false) := by
      exact @State.view_setIo _ (s.unlocked (.blocking d)) d
        { (s.world d).io with blocked := false } rfl
    rw [hview]
    exact hinv
  · intro _ d'
    by_cases hne : d' = d
    · subst hne; simp [State.exited, State.setIo, State.setWorld, State.unlocked, State.setLock]
    · simp [State.exited, State.setIo, State.setWorld, State.unlocked, State.setLock, hne]

/-! ### Streams -/

/-- What the threads share is the same, apart from locks. -/
structure Same (s s' : State T) : Prop where
  shared : ∀ d, Stream.shared (s'.world d) = Stream.shared (s.world d)
  waiters : s'.waiters = s.waiters

theorem Same.blocked (h : Same s s') (d : Dir) :
    (s'.world d).io.blocked = (s.world d).io.blocked :=
  congrArg Prod.snd (h.shared d)

theorem Same.stream (h : Same s s') (d : Dir) : (s'.world d).io.stream = (s.world d).io.stream :=
  congrArg Prod.fst (h.shared d)

/-- Another record on one half, with the same handle and the same flag. -/
theorem same_update {w : Stream.World} (hw : Stream.shared w = Stream.shared (s.world d))
    (hworld : s'.world = update s.world d w) (hwaiters : s'.waiters = s.waiters) :
    Same s s' := by
  refine ⟨fun d' => ?_, hwaiters⟩
  by_cases hd : d' = d
  · subst hd; simpa [hworld] using hw
  · simp [hworld, hd]

theorem Same.isOpen (h : Same s s') (hkind : s'.kind = s.kind) (d : Dir) :
    s'.isOpen (s'.world d).io = s.isOpen (s.world d).io := by
  rw [State.isOpen, State.isOpen, hkind, h.stream]

theorem Same.view (h : Same s s') (hlock : s'.lock = s.lock) (hkind : s'.kind = s.kind) :
    s'.view = s.view := by
  have hblocked : (fun d => (s'.world d).io.blocked) = fun d => (s.world d).io.blocked :=
    funext h.blocked
  simp only [State.view, hlock, h.waiters, h.isOpen hkind, hblocked]

/-- A program on a stream that leaves the flag and the handle alone. -/
theorem runs_onEnd {p : Stream.M α} (h : Mid s₀ t may r s) (hp : Stream.Keeps Stream.shared p)
    (hcalm : Calm s₀ → Stream.Keeps Stream.usage p) {Q : α → State T → Prop}
    (hQ : ∀ a s', Mid s₀ t may r s' → Same s s' → Q a s') : Runs (onEnd d p) Q s := by
  have hshared := hp { s.world d with script := s.env.script }
  have husage := fun hc => hcalm hc { s.world d with script := s.env.script }
  unfold Runs wp at *
  unfold onEnd
  cases hrun : p { s.world d with script := s.env.script } with
  | error e => cases e <;> simp
  | ok r =>
    simp only [hrun] at hshared husage ⊢
    have hsame : Same s { s with
        world := update s.world d r.2
        env := { s.env with script := r.2.script } } := same_update hshared rfl rfl
    refine hQ _ _ (h.congr (hsame.view rfl rfl) rfl rfl rfl fun hc d' => ?_) hsame
    by_cases hd : d' = d
    · subst hd; simpa [Stream.usage] using congrArg Stream.Usage.inprogress (husage hc)
    · simp [hd]

theorem runs_modifyIo {f : Stream.IoState → Stream.IoState} (h : Mid s₀ t may r s) (hQ : ∀ s', Mid s₀ t may r s' → Same s s' → Q ⟨⟩ s')
    (hf : ∀ w : Stream.World, Stream.usage { w with io := f w.io } = Stream.usage w) :
    Runs (modifyIo d f) Q s := by
  have husage := hf (s.world d)
  have hsame : Same s (s.setIo d (f (s.world d).io)) :=
    same_update (congrArg (fun u => (u.stream, u.blocked)) husage) rfl rfl
  refine hQ (s.setIo d (f (s.world d).io)) (h.congr (hsame.view rfl rfl) rfl rfl rfl
    fun _ d' => ?_) hsame
  rw [State.setIo_io]
  split
  case isTrue hd =>
    subst hd
    exact congrArg Stream.Usage.inprogress husage
  case isFalse => rfl

/-! ### Closing -/

/-- A state that nobody uses is zeroed. -/
theorem runs_zeroState (h : Mid s₀ t may r s) (hb : (s.world d).io.blocked = false)
    (hw : s.waiters d = 0)
    (hQ : ∀ s', Mid s₀ t may r s' → (s'.world d).io = .zero →
      (∀ d', d' ≠ d → s'.world d' = s.world d') → s'.waiters = s.waiters → Q ⟨⟩ s') :
    Runs (zeroState t d) Q s := by
  have hword : (s.lock (.blocking d)).word = 0 := h.inv.word_eq_zero hb hw
  have husers : s.users t d = 0 := by
    rw [State.users, Finset.card_eq_zero, Finset.filter_eq_empty_iff]
    rintro u - ⟨hu, huses⟩
    have := h.inv.unused hb hw u
    rw [update_of_ne hu] at this
    rw [State.roles, h.thread] at huses
    exact this huses
  have hwaiters : update s.waiters d 0 = s.waiters := by
    rw [← hw, update_eq_self]
  have hlock : update s.lock (.blocking d) { s.lock (.blocking d) with word := 0 } =
      s.lock := by
    rw [← hword, update_eq_self]
  have hview : (s.setIo d .zero).view =
      { s.view with present := update s.view.present d (s.isOpen .zero) } :=
    State.view_setWorld_present hb.symm
  simp only [zeroState, wp_modify, hword, hw, husers, hwaiters, hlock]
  refine hQ { s.setIo d .zero with zeroed := ⟨d, 0, 0, 0⟩ :: s.zeroed }
    ⟨?_, h.formed, h.thread, h.waiters, ?_, h.kind, h.file, fun hc d' => ?_⟩ ?_
    (fun d' hd => ?_) rfl
  · show Inv (s.setIo d .zero).view _
    rw [hview]
    exact h.inv.setPresent fun _ => ⟨hb, hw⟩
  · obtain ⟨new, hnew, hclean⟩ := h.log
    refine ⟨⟨d, 0, 0, 0⟩ :: new, by simp [hnew], ?_⟩
    simpa [Zeroed.Clean] using hclean
  · show ((s.setIo d .zero).world d').io.inprogress = false
    rw [State.setIo_io]
    split
    case isTrue => rfl
    case isFalse => exact h.calm hc d'
  · simp [State.setIo, State.setWorld]
  · simp [State.setIo, State.setWorld, hd]

theorem runs_ioStateInit (h : Mid s₀ t may r s) (hb : (s.world d).io.blocked = false)
    (hw : s.waiters d = 0)
    (hQ : ∀ s', Mid s₀ t may r s' → s'.waiters = s.waiters → Q ⟨⟩ s') :
    Runs (ioStateInit t d) Q s := by
  refine wp_bind.mpr (runs_zeroState h hb hw fun s₁ h₁ hzero _ hwaiters => ?_)
  have hview : (s₁.setWorld d ⟨.init 1, openHost, [], [], []⟩).view =
      { s₁.view with present := update s₁.view.present d (s₁.isOpen (.init 1)) } :=
    State.view_setWorld_present (by rw [hzero]; rfl)
  refine hQ (s₁.setWorld d ⟨.init 1, openHost, [], [], []⟩)
    ⟨?_, h₁.formed, h₁.thread, h₁.waiters, h₁.log, h₁.kind, h₁.file, fun hc d' => ?_⟩
    hwaiters
  · rw [hview]
    exact h₁.inv.setPresent (by simp [State.isOpen, Stream.IoState.init])
  · rw [State.setWorld_world]
    split
    case isTrue => rfl
    case isFalse => exact h₁.calm hc d'

end

end WasiLibc.Object

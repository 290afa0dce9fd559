import WasiLibc.Pipe.Correct

/-!
# WasiLibc.Pipe.Ready

When `poll` finds a half of a pipe ready.  `pipe_poll_register` decides this
with tests of its own, which are compared here with what a read or a write
would do that does not block.

`ready_iff_not_refused`: both agree in every reachable state.
-/

namespace WasiLibc.Pipe

open Wp

variable {ι : Type} {s s' : State ι} {d : Dir}

/-! ## Registration -/

/-- What `pipe_poll_register` has done: reported an event with
`__wasilibc_poll_ready`, added the half to the waitable set, or neither. -/
inductive Registered where
  | rdnorm
  | wrnorm
  | added
  | nothing
  deriving DecidableEq, Repr

/-- The part of `pipe_poll_register` for a half that is not ready. -/
def registerWait (d : Dir) (pollAdd : Bool) : M ι (Except Errno Registered) := do
  match ← blockEnter d with
  | .error e => return .error e
  | .ok _ =>
    if pollAdd then return .ok .added
    else do
      let _ ← blockExit d
      return .error .ENOMEM

/-- `pipe_poll_register`, with its result. -/
def register (fd : PollFd) (pollAdd : Bool) : M ι (Except Errno Registered) := do
  let s ← get
  if fd.rdnorm ∧ fd.half = .read then
    if s.buffer ≠ [] ∨ ¬ s.alive .write then return .ok .rdnorm
    else registerWait .read pollAdd
  else if fd.wrnorm ∧ fd.half = .write then
    if s.cap = 0 ∨ s.buffer.length < s.cap ∨ ¬ s.alive .read then return .ok .wrnorm
    else registerWait .write pollAdd
  else return .ok .nothing

variable {α : Type} {t : ι} {env : Env} {e : Event} {b : UInt8} {pollAdd : Bool} {r : Registered}

theorem get_bind_apply (f : State ι → M ι α) (s : State ι) : (get >>= f) s = f s s := rfl

section

variable [DecidableEq ι]

/-- How the thread that polls goes on. -/
def afterRegister (t : ι) (half : Dir) (todo : List PollFd) (regs : List Dir) :
    Except Errno Registered → M ι PUnit
  | .error _ => park t (.cleaning regs)
  | .ok .added => park t (.registering todo (regs ++ [half]))
  | .ok _ => park t (.registering todo regs)

theorem pollEnter_eq (t : ι) (d : Dir) (pollAdd : Bool) (todo : List PollFd) (regs : List Dir) :
    pollEnter t d pollAdd todo regs =
      registerWait d pollAdd >>= afterRegister t d todo regs := by
  unfold pollEnter registerWait
  rw [bind_assoc]
  congr 1
  funext r
  cases r with
  | error e => rfl
  | ok u =>
    cases pollAdd with
    | true => rfl
    | false => simp only [Bool.false_eq_true, if_false, bind_assoc, pure_bind, afterRegister]

/-- `poll` registers its entries with `register`. -/
theorem pollRegister_eq (t : ι) (fd : PollFd) (pollAdd : Bool) (todo : List PollFd)
    (regs : List Dir) :
    pollRegister t fd pollAdd todo regs = (do
      if ¬ (← get).alive fd.half then park t (.registering todo regs)
      else register fd pollAdd >>= afterRegister t fd.half todo regs) := by
  funext s
  unfold pollRegister register
  rw [get_bind_apply, get_bind_apply]
  by_cases halive : s.alive fd.half = true
  · rw [if_neg (not_not.mpr halive), if_neg (not_not.mpr halive), bind_assoc, get_bind_apply]
    by_cases hread : fd.rdnorm = true ∧ fd.half = .read
    · rw [if_pos hread, if_pos hread, hread.2]
      by_cases hready : s.buffer ≠ [] ∨ ¬ s.alive .write = true
      · rw [if_pos hready, if_pos hready]
        rfl
      · rw [if_neg hready, if_neg hready, pollEnter_eq]
    · rw [if_neg hread, if_neg hread]
      by_cases hwrite : fd.wrnorm = true ∧ fd.half = .write
      · rw [if_pos hwrite, if_pos hwrite, hwrite.2]
        by_cases hready : s.cap = 0 ∨ s.buffer.length < s.cap ∨ ¬ s.alive .read = true
        · rw [if_pos hready, if_pos hready]
          rfl
        · rw [if_neg hready, if_neg hready, pollEnter_eq]
      · rw [if_neg hwrite, if_neg hwrite]
        rfl
  · rw [if_pos halive, if_pos halive]

end

/-! ## What blocking and notification leave alone -/

/-- Every fault is admitted. -/
def anyFault (_ : Fault) : Prop := True

/-- The parts of the state that have nothing to do with the stream. -/
def State.store (s : State ι) := (s.alive, s.allocated, s.cap, s.buffer, s.thread, s.log)

/-- The store is as it was. -/
abbrev Kept {α : Type} (f : M ι α) : Prop := ∀ x, Keeps anyFault (fun s => s.store = x) f

theorem kept_streamCopy (d : Dir) : Kept (streamCopy d : M ι Status) := fun _ =>
  .get fun _ _ => .bind (.require trivial) fun _ => .get fun _ _ => .bind (.require trivial)
    fun _ => .get fun _ _ => .ite (fun _ => .bind (.modify fun _ h => h) fun _ => .pure _)
      fun _ => .bind (.modify fun _ h => h) fun _ => .pure _

theorem kept_streamCancel (d : Dir) : Kept (streamCancel d : M ι Status) := by
  refine fun _ => .get fun s _ => ?_
  cases s.ends d with
  | idle => exact .throw trivial
  | copying => exact .bind (.modify fun _ h => h) fun _ => .pure _
  | finished => exact .bind (.modify fun _ h => h) fun _ => .pure _

theorem kept_deliver (d : Dir) : Kept (deliver d : M ι PUnit) := fun _ =>
  .get fun _ _ => .bind (.require trivial) fun _ => .modify fun _ h => h

theorem kept_unblock (d : Dir) : Kept (unblock d : M ι PUnit) := fun x =>
  .get fun _ _ => .ite (fun _ => .pure _) fun _ =>
    .get fun _ _ => .bind (.require trivial) fun _ =>
      .get fun _ _ => .ite (fun _ => .pure _) fun _ =>
        .bind (.modify fun _ h => h) fun _ => .bind (kept_streamCopy _ x) fun _ => .require trivial

theorem kept_blockEnter (d : Dir) : Kept (blockEnter d : M ι (Except Errno Unit)) := fun x =>
  .get fun _ _ => .ite (fun _ => .pure _) fun _ =>
    .get fun _ _ => .bind (.require trivial) fun _ => .bind (.modify fun _ h => h) fun _ =>
      .bind (.modify fun _ h => h) fun _ => .bind (kept_streamCopy _ x) fun _ =>
        .bind (.require trivial) fun _ => .pure _

theorem kept_blockExit (d : Dir) : Kept (blockExit d : M ι Bool) := by
  refine fun x => .get fun s _ => .bind (.modify fun _ h => h) fun _ => ?_
  cases s.woken d with
  | true => exact .pure _
  | false =>
    exact .bind (kept_streamCancel _ x) fun _ => .bind (.require trivial) fun _ => .pure _

/-! ## The buffer is allocated before it is used -/

/-- Without a buffer there is nothing in it, and no write waits for room. -/
def Backed (s : State ι) : Prop :=
  s.allocated = false → s.buffer = [] ∧ ∀ t data, s.thread t ≠ .sending data

theorem backed_of_allocated (h : s.allocated = true) : Backed s := by
  intro hnot
  rw [h] at hnot
  cases hnot

theorem Backed.congr (h : Backed s) (hs : s'.store = s.store) : Backed s' := by
  simp only [State.store, Prod.mk.injEq] at hs
  obtain ⟨-, hallocated, -, hbuffer, hthread, -⟩ := hs
  unfold Backed
  rw [hallocated, hbuffer, hthread]
  exact h

theorem Kept.backed {f : M ι α} (hf : Kept f) : Keeps anyFault Backed f :=
  fun s h => wp_mono (hf s.store s rfl) fun _ _ hs => h.congr hs

/-- The buffer is never given up. -/
abbrev Allocated (s : State ι) : Prop := s.allocated = true

theorem Kept.allocated {f : M ι α} (hf : Kept f) : Keeps anyFault Allocated f := by
  refine fun s h => wp_mono (hf s.store s rfl) fun _ s' hs => ?_
  simp only [State.store, Prod.mk.injEq] at hs
  exact hs.2.1.trans h

variable [DecidableEq ι]

theorem keeps_park {p : Phase} (hp : ∀ data, p ≠ .sending data) :
    Keeps anyFault Backed (park t p) := by
  refine .modify fun s h hnot => ⟨(h hnot).1, fun u data => ?_⟩
  by_cases hu : u = t
  · subst hu
    simpa using hp data
  · simpa [Function.update_of_ne hu] using (h hnot).2 u data

theorem keeps_finish (t : ι) (e : Event) : Keeps anyFault Backed (finish t e) :=
  .bind (.modify fun _ h => h) fun _ => keeps_park nofun

theorem allocated_finish (t : ι) (e : Event) : Keeps anyFault Allocated (finish t e) :=
  .bind (.modify fun _ h => h) fun _ => .modify fun _ h => h

/-- A write that goes on has a buffer. -/
theorem allocated_sendLoop (t : ι) (data : List UInt8) :
    Keeps anyFault Allocated (sendLoop t data) := by
  refine .get fun _ _ => .ite (fun _ => allocated_finish _ _) fun _ =>
    .get fun _ _ => .ite (fun _ => .get fun _ _ => .get fun _ _ => .bind (.modify fun _ h => h)
      fun _ => .bind (kept_unblock _).allocated fun _ => allocated_finish _ _) fun _ =>
    .get fun _ _ => .ite (fun _ => allocated_finish _ _) fun _ =>
    .bind (kept_blockEnter _).allocated fun r => ?_
  cases r with
  | error e => exact allocated_finish _ _
  | ok u => exact .modify fun _ h => h

theorem backed_sendLoop {data : List UInt8} (h : s.allocated = true) :
    wp anyFault (sendLoop t data) (fun _ s' => Backed s') s :=
  wp_mono (allocated_sendLoop t data s h) fun _ _ => backed_of_allocated

theorem keeps_sendto (t : ι) (half : Dir) (data : List UInt8) (invalid malloc : Bool) :
    Keeps anyFault Backed (sendto t half data invalid malloc) := by
  refine .ite (fun _ => keeps_finish _ _) fun _ => .ite (fun _ => keeps_finish _ _) fun _ =>
    .ite (fun _ => keeps_finish _ _) fun _ => ?_
  intro s h
  simp only [allocate, wp_bind, wp_get, wp_ite, wp_pure, wp_modify]
  by_cases hallocated : s.allocated = true
  · rw [if_pos hallocated, if_pos trivial]
    exact backed_sendLoop hallocated
  · rw [if_neg hallocated]
    cases malloc with
    | true => exact backed_sendLoop rfl
    | false => exact keeps_finish _ _ _ fun _ => h (by simpa using hallocated)

theorem keeps_recvLoop (t : ι) (length : Nat) : Keeps anyFault Backed (recvLoop t length) := by
  intro s h
  unfold recvLoop
  rw [wp_bind, wp_get, wp_ite]
  split
  case isTrue hne =>
    have hallocated : s.allocated = true := by
      by_contra hnot
      exact hne (h (by simpa using hnot)).1
    have hrest : Keeps anyFault Allocated (do
        unblockWriter
        finish t (.received length (.ok (s.buffer.take (min length s.buffer.length))))) :=
      .bind (kept_unblock _).allocated fun _ => allocated_finish _ _
    rw [wp_bind, wp_get, wp_bind, wp_modify]
    exact wp_mono (hrest _ hallocated) fun _ _ => backed_of_allocated
  case isFalse hnil =>
    refine Keeps.get (fun _ _ => .ite (fun _ => keeps_finish _ _) fun _ => .get fun _ _ =>
      .ite (fun _ => keeps_finish _ _) fun _ => .bind (kept_blockEnter _).backed fun r => ?_) s h
    cases r with
    | error e => exact keeps_finish _ _
    | ok u => exact keeps_park nofun

theorem keeps_recvfrom (t : ι) (half : Dir) (length : Nat) (invalid : Bool) :
    Keeps anyFault Backed (recvfrom t half length invalid) :=
  .ite (fun _ => keeps_finish _ _) fun _ => .ite (fun _ => keeps_finish _ _) fun _ =>
    .ite (fun _ => keeps_finish _ _) fun _ => keeps_recvLoop _ _

theorem keeps_pollEnter (t : ι) (d : Dir) (pollAdd : Bool) (todo : List PollFd)
    (regs : List Dir) : Keeps anyFault Backed (pollEnter t d pollAdd todo regs) := by
  refine .bind (kept_blockEnter d).backed fun r => ?_
  cases r with
  | error e => exact keeps_park nofun
  | ok u =>
    exact .ite (fun _ => keeps_park nofun) fun _ =>
      .bind (kept_blockExit d).backed fun _ => keeps_park nofun

theorem keeps_pollRegister (t : ι) (fd : PollFd) (pollAdd : Bool) (todo : List PollFd)
    (regs : List Dir) : Keeps anyFault Backed (pollRegister t fd pollAdd todo regs) :=
  .get fun _ _ => .ite (fun _ => keeps_park nofun) fun _ =>
    .ite (fun _ => .ite (fun _ => keeps_park nofun) fun _ => keeps_pollEnter _ _ _ _ _) fun _ =>
    .ite (fun _ => .ite (fun _ => keeps_park nofun) fun _ => keeps_pollEnter _ _ _ _ _) fun _ =>
      keeps_park nofun

theorem keeps_pollWait (t : ι) (regs : List Dir) (found : Found) :
    Keeps anyFault Backed (pollWait t regs found) := by
  cases found with
  | half d =>
    exact .bind (.require trivial) fun _ => .bind (kept_deliver d).backed fun _ =>
      .bind (kept_blockExit d).backed fun _ => .bind (.require trivial) fun _ => keeps_park nofun
  | other => exact .pure _
  | none => exact .get fun _ _ => .bind (.require trivial) fun _ => keeps_park nofun

omit [DecidableEq ι] in
theorem keeps_free (d : Dir) : Keeps anyFault Backed (free d : M ι PUnit) :=
  .bind (.modify fun _ h => h) fun _ => .get fun _ _ => .get fun _ _ =>
    .ite (fun _ => .get fun _ _ => .bind (.require trivial) fun _ => .get fun _ _ =>
        .bind (.require trivial) fun _ => .modify fun _ h => h)
      fun _ => .ite (fun _ => (kept_unblock _).backed) fun _ => (kept_unblock _).backed

theorem keeps_call (t : ι) (malloc : Bool) (c : Call) :
    Keeps anyFault Backed (call t malloc c) := by
  cases c with
  | recvfrom half length invalid => exact keeps_recvfrom _ _ _ _
  | sendto half data invalid => exact keeps_sendto _ _ _ _ _
  | setBlocking half blocking => exact .modify fun _ h => h
  | poll fds => exact keeps_park nofun

/-- A thread that goes on keeps the invariant; a write that waited had its buffer
before. -/
theorem backed_resumed (h : Backed s) :
    wp anyFault (resumed t env (s.thread t)) (fun _ s' => Backed s') s := by
  cases ht : s.thread t with
  | idle => exact trivial
  | receiving length =>
    exact Keeps.bind (kept_deliver _).backed (fun _ => .bind (kept_blockExit _).backed fun _ =>
      keeps_recvLoop _ _) s h
  | sending data =>
    have hallocated : s.allocated = true := by
      by_contra hnot
      exact (h (by simpa using hnot)).2 t data ht
    have hrest : Keeps anyFault Allocated (resumed t env (.sending data)) :=
      .bind (kept_deliver _).allocated fun _ => .bind (kept_blockExit _).allocated fun _ =>
        allocated_sendLoop t data
    exact wp_mono (hrest s hallocated) fun _ _ => backed_of_allocated
  | registering todo regs =>
    cases todo with
    | nil => exact keeps_park (p := .polling regs) nofun s h
    | cons fd todo => exact keeps_pollRegister _ _ _ _ _ s h
  | polling regs => exact keeps_pollWait _ _ _ s h
  | cleaning regs =>
    cases regs with
    | nil => exact keeps_park (p := .idle) nofun s h
    | cons d regs =>
      exact Keeps.bind (kept_blockExit d).backed (fun _ => keeps_park (p := .cleaning regs) nofun) s h

variable [Fintype ι]

theorem Backed.next {l : Label ι} (h : Backed s) (hs : next s l = some s') : Backed s' := by
  have hprogram : wp anyFault (program s l) (fun _ s' => Backed s') s := by
    cases l with
    | call t c env => exact Keeps.bind (.require trivial) (fun _ => keeps_call t env.malloc c) s h
    | resume t env => exact backed_resumed h
    | close d => exact Keeps.bind (.require trivial) (fun _ => keeps_free d) s h
  exact state_of_wp hprogram hs

theorem backed_of_reaches {nonblock : Bool}
    (h : Steps.Reaches next (fun _ _ => True) (State.initial nonblock : State ι) s) : Backed s :=
  h.invariant (fun _ => ⟨rfl, fun _ _ => nofun⟩) fun _ _ _ hbacked _ hs => hbacked.next hs

/-! ## Calls that do not block -/

/-- The pipe with a half that does not block. -/
def State.nonblocking (s : State ι) (d : Dir) : State ι :=
  { s with blocking := Function.update s.blocking d false }

/-- The step ends a call, and `e` is what it ends with. -/
def EndsWith (s : State ι) (l : Label ι) (e : Event) : Prop :=
  ∃ s', exec s l = .ok s' ∧ s'.log = s.log ++ [e]

theorem endsWith_call {c : Call} (ht : s.thread t = .idle)
    (halive : ∀ d ∈ c.half, s.alive d = true)
    (h : wp (fun _ => False) (call t env.malloc c) (fun _ s' => s'.log = s.log ++ [e]) s) :
    EndsWith s (.call t c env) e := by
  have hprogram : wp (fun _ => False) (program s (.call t c env))
      (fun _ s' => s'.log = s.log ++ [e]) s :=
    wp_bind.mpr (wp_require.mpr ⟨fun _ => h, fun hnot => hnot ⟨ht, halive⟩⟩)
  obtain ⟨_, s', hrun, hlog⟩ := exists_ok_of_wp hprogram
  exact ⟨s', by rw [exec, hrun]; rfl, hlog⟩

theorem not_endsWith_call {c : Call}
    (h : wp anyFault (call t env.malloc c) (fun _ s' => ∃ e', e' ≠ e ∧ s'.log = s.log ++ [e']) s) :
    ¬ EndsWith s (.call t c env) e := by
  have hprogram : wp anyFault (program s (.call t c env))
      (fun _ s' => ∃ e', e' ≠ e ∧ s'.log = s.log ++ [e']) s :=
    wp_bind.mpr (wp_require.mpr ⟨fun _ => h, fun _ => trivial⟩)
  rintro ⟨s', hexec, hlog⟩
  unfold exec at hexec
  cases hrun : program s (.call t c env) s with
  | error fault => simp [hrun, Functor.map, Except.map] at hexec
  | ok r =>
    have hs' : r.2 = s' := by simpa [hrun, Functor.map, Except.map] using hexec
    obtain ⟨e', hne, hlog'⟩ := post_of_wp hprogram hrun
    rw [hs', hlog] at hlog'
    exact hne (List.singleton_inj.mp (List.append_cancel_left hlog')).symm

omit [Fintype ι] in
/-- The call ends with something else. -/
theorem finish_other {e' : Event} {log : List Event} (hne : e' ≠ e)
    (hlog : s.log = log) :
    wp anyFault (finish t e') (fun _ s' => ∃ e₁, e₁ ≠ e ∧ s'.log = log ++ [e₁]) s :=
  ⟨e', hne, congrArg (· ++ [e']) hlog⟩

/-- A read that does not block is refused when there is nothing to read, and the
writer is there. -/
theorem read_refused_iff {n : Nat} (ht : s.thread t = .idle)
    (halive : s.alive .read = true) (hblocking : s.blocking .read = false) (hn : 0 < n) :
    EndsWith s (.call t (.recvfrom .read n false) env) (.received n (.error .EWOULDBLOCK)) ↔
      s.buffer = [] ∧ s.alive .write = true := by
  have hcall : call t env.malloc (.recvfrom .read n false) = recvLoop t n := by
    simp only [call, recvfrom, Bool.false_eq_true, if_false, ne_eq, not_true_eq_false,
      if_neg hn.ne']
  constructor
  · intro hends
    by_contra hnot
    refine not_endsWith_call ?_ hends
    rw [hcall]
    unfold recvLoop
    rw [wp_bind, wp_get, wp_ite]
    split
    case isTrue hne =>
      rw [wp_bind, wp_get, wp_bind, wp_modify, wp_bind]
      refine wp_mono (kept_unblock .write _ _ rfl) fun _ s₁ hs₁ => ?_
      simp only [State.store, Prod.mk.injEq] at hs₁
      exact finish_other (by simp) hs₁.2.2.2.2.2
    case isFalse hnil =>
      have hwriter : ¬ s.alive .write = true := fun hwriter => hnot ⟨not_not.mp hnil, hwriter⟩
      rw [wp_bind, wp_get, if_pos hwriter]
      exact finish_other (by simp) rfl
  · rintro ⟨hnil, hwriter⟩
    refine endsWith_call ht (by rintro d ⟨⟩; exact halive) ?_
    rw [hcall]
    simp [recvLoop, finish, park, hblocking, hnil, hwriter, wp_ite]

omit [Fintype ι] in
/-- The loop of a write that does not block, with a buffer. -/
theorem sendLoop_refused (hblocking : s.blocking .write = false)
    (hfull : ¬ s.Accepts 1) (hreader : s.alive .read = true) :
    wp (fun _ => False) (sendLoop t [b])
      (fun _ s' => s'.log = s.log ++ [.sent [b] (.error .EWOULDBLOCK)]) s := by
  simp [sendLoop, finish, park, hblocking, hfull, hreader, wp_ite]

omit [Fintype ι] in
theorem sendLoop_other (h : s.Accepts 1 ∨ ¬ s.alive .read = true) :
    wp anyFault (sendLoop t [b])
      (fun _ s' => ∃ e, e ≠ .sent [b] (.error .EWOULDBLOCK) ∧ s'.log = s.log ++ [e]) s := by
  unfold sendLoop
  rw [wp_bind, wp_get, wp_ite]
  split
  case isTrue => exact finish_other (by simp) rfl
  case isFalse hreader =>
    have haccepts : s.Accepts [b].length := h.resolve_right hreader
    rw [wp_bind, wp_get, if_pos haccepts, wp_bind, wp_get, wp_bind, wp_get, wp_bind, wp_modify,
      wp_bind]
    refine wp_mono (kept_unblock .read _ _ rfl) fun _ s₁ hs₁ => ?_
    simp only [State.store, Prod.mk.injEq] at hs₁
    exact finish_other (by simp) hs₁.2.2.2.2.2

/-- A write of a byte that does not block is refused when the buffer is full, and
the reader is there. -/
theorem write_refused_iff (ht : s.thread t = .idle)
    (halive : s.alive .write = true) (hblocking : s.blocking .write = false)
    (hstorage : Storage s) (hbacked : Backed s) :
    EndsWith s (.call t (.sendto .write [b] false) env) (.sent [b] (.error .EWOULDBLOCK)) ↔
      s.buffer.length = PIPE_BUF ∧ s.alive .read = true := by
  have hle := hstorage.bound
  constructor
  · intro hends
    by_contra hnot
    refine not_endsWith_call ?_ hends
    simp only [call, sendto, Bool.false_eq_true, if_false, ne_eq, not_true_eq_false,
      List.cons_ne_nil, allocate, wp_bind, wp_get, wp_ite, wp_pure, wp_modify]
    by_cases hallocated : s.allocated = true
    · rw [if_pos hallocated, if_pos trivial]
      have hcap := hstorage.allocated hallocated
      refine sendLoop_other ?_
      by_cases hreader : s.alive .read = true
      · have hroom : s.buffer.length ≠ PIPE_BUF := fun hfull => hnot ⟨hfull, hreader⟩
        exact .inl ⟨by omega, .inr (by omega)⟩
      · exact .inr hreader
    · rw [if_neg hallocated]
      have hnil := (hbacked (by simpa using hallocated)).1
      cases env.malloc with
      | true =>
        refine sendLoop_other (s := { s with cap := PIPE_BUF, allocated := true }) (.inl ?_)
        simp only [State.Accepts, hnil]
        decide
      | false => exact finish_other (by simp) rfl
  · rintro ⟨hfull, hreader⟩
    refine endsWith_call ht (by rintro d ⟨⟩; exact halive) ?_
    have hallocated : s.allocated = true := by
      by_contra hn
      rw [(hbacked (by simpa using hn)).1] at hfull
      cases hfull
    have hrefuses : ¬ s.Accepts 1 := by
      unfold State.Accepts
      rw [hstorage.allocated hallocated, hfull]
      omega
    simp only [call, sendto, Bool.false_eq_true, if_false, ne_eq, not_true_eq_false,
      List.cons_ne_nil, allocate, wp_bind, wp_get, wp_ite, wp_pure, if_pos hallocated, if_true]
    exact sendLoop_refused hblocking hrefuses hreader

/-! ## Both agree -/

omit [DecidableEq ι] [Fintype ι]

theorem registerWait_ok
    (h : registerWait d pollAdd s = .ok (.ok r, s')) : r = .added := by
  have hwp : wp anyFault (registerWait d pollAdd) (fun r _ => ∀ x, r = .ok x → x = .added) s := by
    unfold registerWait
    rw [wp_bind]
    refine wp_mono (kept_blockEnter d _ _ rfl) fun r s₁ _ => ?_
    cases r with
    | error e => exact nofun
    | ok u =>
      cases pollAdd with
      | true => exact fun x hx => (by cases hx; rfl)
      | false =>
        refine wp_bind.mpr (wp_mono (kept_blockExit d _ _ rfl) fun _ _ _ => ?_)
        exact nofun
  exact post_of_wp hwp h r rfl

/-- When the read half is reported at once. -/
theorem register_read {fd : PollFd} (hhalf : fd.half = .read)
    (hevents : fd.rdnorm = true) (h : register fd pollAdd s = .ok (.ok r, s')) :
    r = .rdnorm ↔ ¬ (s.buffer = [] ∧ s.alive .write = true) := by
  unfold register at h
  rw [get_bind_apply, if_pos ⟨hevents, hhalf⟩] at h
  by_cases hready : s.buffer ≠ [] ∨ ¬ s.alive .write = true
  · rw [if_pos hready] at h
    cases h
    exact ⟨fun _ hnot => hready.elim (absurd hnot.1) (absurd hnot.2), fun _ => rfl⟩
  · rw [if_neg hready] at h
    have hadded := registerWait_ok h
    subst hadded
    refine ⟨nofun, fun hnot => absurd ⟨?_, ?_⟩ hnot⟩
    · exact not_not.mp fun hne => hready (.inl hne)
    · exact not_not.mp fun hne => hready (.inr hne)

/-- When the write half is reported at once. -/
theorem register_write {fd : PollFd} (hhalf : fd.half = .write)
    (hevents : fd.wrnorm = true) (hstorage : Storage s)
    (h : register fd pollAdd s = .ok (.ok r, s')) :
    r = .wrnorm ↔ ¬ (s.buffer.length = PIPE_BUF ∧ s.alive .read = true) := by
  have hbound := hstorage.bound
  have hpos : 0 < PIPE_BUF := by decide
  have hfull : (s.cap = 0 ∨ s.buffer.length < s.cap ∨ ¬ s.alive .read = true) ↔
      ¬ (s.buffer.length = PIPE_BUF ∧ s.alive .read = true) := by
    by_cases hreader : s.alive .read = true
    · simp only [hreader, not_true_eq_false, or_false, and_true]
      rcases hstorage.cap with hcap | hcap <;> omega
    · simp [hreader]
  unfold register at h
  rw [get_bind_apply, if_neg (by simp [hhalf]), if_pos ⟨hevents, hhalf⟩] at h
  by_cases hready : s.cap = 0 ∨ s.buffer.length < s.cap ∨ ¬ s.alive .read = true
  · rw [if_pos hready] at h
    cases h
    exact ⟨fun _ => hfull.mp hready, fun _ => rfl⟩
  · rw [if_neg hready] at h
    have hadded := registerWait_ok h
    subst hadded
    exact ⟨nofun, fun hnot => absurd (hfull.mpr hnot) hready⟩

variable [DecidableEq ι] [Fintype ι]

/-- **Readiness agrees with calls that do not block**, in every reachable state in
which `poll` can register at the half: the read half is ready at once exactly
when a read of any positive length is not refused, and the write half exactly
when a write of one byte is not refused. -/
theorem ready_iff_not_refused (nonblock : Bool)
    (h : Steps.Reaches next (fun _ _ => True) (State.initial nonblock : State ι) s) (t : ι)
    (ht : s.thread t = .idle) (fd : PollFd) (pollAdd : Bool) (r : Registered) (s' : State ι)
    (halive : s.alive fd.half = true) (hregister : register fd pollAdd s = .ok (.ok r, s')) :
    (fd.half = .read → fd.rdnorm = true → ∀ n env, 0 < n →
      (r = .rdnorm ↔ ¬ EndsWith (s.nonblocking .read) (.call t (.recvfrom .read n false) env)
        (.received n (.error .EWOULDBLOCK)))) ∧
    (fd.half = .write → fd.wrnorm = true → ∀ b env,
      (r = .wrnorm ↔ ¬ EndsWith (s.nonblocking .write) (.call t (.sendto .write [b] false) env)
        (.sent [b] (.error .EWOULDBLOCK)))) := by
  have hstorage := (good_of_reaches h).inv.storage
  have hbacked := backed_of_reaches h
  constructor
  · intro hhalf hevents n env hn
    rw [hhalf] at halive
    rw [register_read hhalf hevents hregister]
    exact not_congr (read_refused_iff (s := s.nonblocking .read) ht halive
      (by simp [State.nonblocking]) hn).symm
  · intro hhalf hevents b env
    rw [hhalf] at halive
    rw [register_write hhalf hevents hstorage hregister]
    exact not_congr (write_refused_iff (s := s.nonblocking .write) ht halive
      (by simp [State.nonblocking]) ⟨hstorage.bound, hstorage.cap, hstorage.allocated⟩ hbacked).symm

/-- At first there is room for a byte. -/
theorem ready_iff_not_refused_initial :
    register ⟨.write, false, true⟩ true (State.initial false : State (Fin 1)) =
        .ok (.ok .wrnorm, State.initial false) ∧
      ¬ EndsWith ((State.initial false : State (Fin 1)).nonblocking .write)
        (.call 0 (.sendto .write [1] false) quiet) (.sent [1] (.error .EWOULDBLOCK)) :=
  ⟨rfl, ((ready_iff_not_refused false .refl (0 : Fin 1) rfl ⟨.write, false, true⟩ true .wrnorm
    (State.initial false) rfl rfl).2 rfl rfl 1 quiet).mp rfl⟩

end WasiLibc.Pipe

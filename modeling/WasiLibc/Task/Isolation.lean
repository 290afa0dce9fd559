import WasiLibc.Lib.Steps
import WasiLibc.Task.Hook

/-!
# WasiLibc.Task.Isolation

Any number of tasks, of which one runs at a time, that set and get their task
contexts.  The one variable of the library that holds the task context is to
look to each task like a variable of its own.

That holds as long as tasks start while the variable is `NULL`.  A task that
blocks leaves it so, but one that finishes leaves its context behind.
-/

namespace WasiLibc.Task

open Function Steps Wp

/-! ## The system -/

/-- The kinds of work with hooks at their start and finish. -/
inductive Kind where
  | sync
  | async
  | init
  | resourceDtor
  | postReturn
deriving DecidableEq, Repr

def Kind.start : Kind → Hook
  | .sync => .syncStart
  | .async => .asyncStart
  | .init => .initializeStart
  | .resourceDtor => .resourceDtorStart
  | .postReturn => .postReturnStart

def Kind.finish : Kind → Hook
  | .sync => .syncFinish
  | .async => .asyncFinish
  | .init => .initializeFinish
  | .resourceDtor => .resourceDtorFinish
  | .postReturn => .postReturnFinish

inductive Phase where
  | fresh
  | running
  | blocked
  | finished
deriving DecidableEq, Repr

/-- The library and the tasks. -/
structure State (ι : Type) where
  memory : Memory
  slots : ι → Slots
  phase : ι → Phase
  /-- The task that runs. -/
  current : Option (ι × Kind)
  /-- What each task has set its context to since it started. -/
  own : ι → Ptr

/-- What can happen; the pointers are what the task sets, and what `malloc`
would return. -/
inductive Label (ι : Type) where
  | start (t : ι) (kind : Kind) (answer : Ptr)
  | set (ctx : Ptr)
  | get
  | block
  | resume (t : ι) (answer : Ptr)
  | finish
  /-- `cabi_realloc` runs, on context slots of its own. -/
  | realloc

/-- Nothing has run. -/
def init (ι : Type) : State ι where
  memory := ⟨fun _ => 0, false, []⟩
  slots := fun _ => ⟨0, 0⟩
  phase := fun _ => .fresh
  current := none
  own := fun _ => 0

variable {ι : Type} [DecidableEq ι] (l : Layout)

/-- Code of a task runs to its end. -/
def State.perform {α : Type} (s : State ι) (t : ι) (f : M α) : Option (α × State ι) :=
  match f ⟨s.memory, s.slots t⟩ with
  | .ok (a, v) => some (a, { s with
      memory := v.memory
      slots := update s.slots t v.slots })
  | .error _ => none

/-- What `__wasilibc_task_context_get` returns to the task. -/
def State.seen (s : State ι) (t : ι) : Option Ptr := (s.perform t (taskContextGet l)).map Prod.fst

/-- A task starts and resumes while no other runs; only an async task blocks. -/
def step (s : State ι) : Label ι → Option (State ι)
  | .start t kind answer =>
    if s.current = none ∧ s.phase t = .fresh then do
      let (_, s) ← s.perform t (wasmTaskHook l answer kind.start)
      return { s with
        phase := update s.phase t .running
        current := some (t, kind)
        own := update s.own t 0 }
    else none
  | .set ctx => do
    let (t, _) ← s.current
    let (_, s) ← s.perform t (taskContextSet l ctx)
    return { s with own := update s.own t ctx }
  | .get => do
    let (t, _) ← s.current
    let (_, s) ← s.perform t (taskContextGet l)
    return s
  | .block =>
    match s.current with
    | some (t, .async) => do
      let (_, s) ← s.perform t (wasmTaskHook l 0 .asyncBlock)
      return { s with
        phase := update s.phase t .blocked
        current := none }
    | _ => none
  | .resume t answer =>
    if s.current = none ∧ s.phase t = .blocked then do
      let (_, s) ← s.perform t (wasmTaskHook l answer .asyncResume)
      return { s with
        phase := update s.phase t .running
        current := some (t, .async) }
    else none
  | .finish => do
    let (t, kind) ← s.current
    let (_, s) ← s.perform t (wasmTaskHook l 0 kind.finish)
    return { s with
      phase := update s.phase t .finished
      current := none }
  | .realloc =>
    match (do wasmTaskHook l 0 .reallocStart; wasmTaskHook l 0 .reallocFinish : M PUnit)
        ⟨s.memory, ⟨0, 0⟩⟩ with
    | .ok (_, v) => some { s with memory := v.memory }
    | .error _ => none

/-- The task that runs sees what it has set itself. -/
def Isolated (s : State ι) : Prop :=
  ∀ t kind, s.current = some (t, kind) → s.seen l t = some (s.own t)

/-- A task starts only while the task context is `NULL`. -/
def Clean (s : State ι) : Label ι → Prop
  | .start _ _ _ => s.memory.taskContext l.mainTls = 0
  | _ => True

/-! ## What the hooks do -/

section Hooks

variable {l} {v : View} (answer : Ptr)

/-- The task uses the storage of the main thread. -/
def View.Main (l : Layout) (v : View) : Prop := l.coop → v.slots.slot1 = l.mainTls

theorem View.Main.tlsBase (h : v.Main l) : tlsBase l v.slots = l.mainTls := by
  unfold Task.tlsBase
  split
  case isTrue hcoop => exact h hcoop
  case isFalse => rfl

/-- No hook stops in the runs that are possible. -/
abbrev noFault : Fault → Prop := fun _ => False

theorem wp_taskStackAlloc {Q : Ptr → View → Prop} (hfree : v.memory.initStackInUse = false)
    (h : Q l.mainStack { v with memory.initStackInUse := true }) :
    wp noFault (taskStackAlloc l answer) Q v := by
  unfold taskStackAlloc
  rw [wp_bind, wp_get]
  simp only [hfree]
  exact h

theorem wp_taskStackFree {Q : PUnit → View → Prop}
    (h : Q ⟨⟩ { v with memory.initStackInUse := false }) :
    wp noFault (taskStackFree l l.mainStack) Q v := by
  unfold taskStackFree
  rw [if_pos rfl]
  exact h

/-- A start hook gives the main stack, which is free, and leaves the task
context alone. -/
theorem hook_start (kind : Kind) (hslot : v.slots.slot0 = 0)
    (hfree : v.memory.initStackInUse = false) :
    wp noFault (wasmTaskHook l answer kind.start) (fun _ v' => v'.Main l ∧
      v'.memory = { v.memory with initStackInUse := true } ∧ v'.slots.slot0 = l.mainStack) v := by
  have hunit : taskHook l answer kind.start v.slots.slot0 l.hookStack =
      startUnit l answer v.slots.slot0 := by cases kind <;> rfl
  unfold wasmTaskHook
  simp only [wp_bind, wp_get, wp_modify]
  rw [hunit]
  unfold startUnit setupImplicitMainTls
  split
  case isTrue hcoop =>
    simp only [wp_bind, wp_modify, wp_require, hslot, true_imp_iff, not_true, false_imp_iff,
      and_true]
    exact wp_taskStackAlloc answer hfree ⟨fun _ => rfl, rfl, rfl⟩
  case isFalse hcoop =>
    simp only [wp_bind, wp_pure, wp_require, hslot, true_imp_iff, not_true, false_imp_iff,
      and_true]
    exact wp_taskStackAlloc answer hfree ⟨fun h => absurd h hcoop, rfl, rfl⟩

/-- A finish hook frees the stack, and leaves the task context alone. -/
theorem hook_finish (kind : Kind) (hmain : v.Main l) (hslot : v.slots.slot0 = l.mainStack) :
    wp noFault (wasmTaskHook l answer kind.finish) (fun _ v' => v'.Main l ∧
      v'.memory = { v.memory with initStackInUse := false }) v := by
  have hunit : taskHook l answer kind.finish v.slots.slot0 l.hookStack =
      finishUnit l v.slots.slot0 := by cases kind <;> rfl
  unfold wasmTaskHook
  simp only [wp_bind, wp_get, wp_modify]
  rw [hunit, hslot]
  unfold finishUnit
  rw [wp_bind]
  exact wp_taskStackFree ⟨hmain, rfl⟩

/-- The block hook frees the stack, and moves the task context to slot 0. -/
theorem hook_block (hmain : v.Main l) (hslot : v.slots.slot0 = l.mainStack) :
    wp noFault (wasmTaskHook l answer .asyncBlock) (fun _ v' => v'.Main l ∧
      v'.memory = { v.memory with
        taskContext := update v.memory.taskContext l.mainTls 0
        initStackInUse := false } ∧
      v'.slots.slot0 = v.memory.taskContext l.mainTls) v := by
  unfold wasmTaskHook taskHook
  simp only [wp_bind, wp_get, wp_modify]
  rw [hslot]
  refine wp_taskStackFree ?_
  unfold taskContextGet taskContextSet
  simp only [wp_bind, wp_get, wp_modify, wp_pure]
  have hbase : tlsBase l { v.slots with slot0 := l.hookStack } = l.mainTls := hmain.tlsBase
  rw [hbase]
  exact ⟨hmain, rfl, rfl⟩

/-- The resume hook moves slot 0 to the task context, and gives the main stack,
which is free. -/
theorem hook_resume (hmain : v.Main l) (hfree : v.memory.initStackInUse = false) :
    wp noFault (wasmTaskHook l answer .asyncResume) (fun _ v' => v'.Main l ∧
      v'.memory = { v.memory with
        taskContext := update v.memory.taskContext l.mainTls v.slots.slot0
        initStackInUse := true } ∧
      v'.slots.slot0 = l.mainStack) v := by
  unfold wasmTaskHook taskHook
  simp only [wp_bind, wp_get, wp_modify]
  unfold taskContextSet
  simp only [wp_modify]
  have hbase : tlsBase l { v.slots with slot0 := l.hookStack } = l.mainTls := hmain.tlsBase
  rw [hbase]
  exact wp_taskStackAlloc answer hfree ⟨hmain, rfl, rfl⟩

/-- `cabi_realloc` leaves no trace. -/
theorem hook_realloc (m : Memory) :
    wp noFault (do wasmTaskHook l answer .reallocStart; wasmTaskHook l answer .reallocFinish)
      (fun _ v => v.memory = m) ⟨m, ⟨0, 0⟩⟩ := by
  simp only [wasmTaskHook, taskHook, setupImplicitMainTls]
  cases l.coop <;> simp

end Hooks

/-! ## What a step does -/

variable {t : ι} {kind : Kind}

theorem State.perform_of_wp {α : Type} {s : State ι} {f : M α} {Q : α → View → Prop}
    (h : wp noFault f Q ⟨s.memory, s.slots t⟩) :
    ∃ a v, Q a v ∧ s.perform t f = some (a, { s with
      memory := v.memory
      slots := update s.slots t v.slots }) := by
  obtain ⟨a, v, hrun, hQ⟩ := exists_ok_of_wp h
  exact ⟨a, v, hQ, by simp [State.perform, hrun]⟩

/-- What holds of the tasks and their stacks in every run. -/
structure Inv (s : State ι) : Prop where
  running : ∀ t kind, s.current = some (t, kind) → s.phase t = .running
  main : ∀ t, s.phase t = .running ∨ s.phase t = .blocked → View.Main l ⟨s.memory, s.slots t⟩
  fresh : ∀ t, s.phase t = .fresh → (s.slots t).slot0 = 0
  stack : ∀ t kind, s.current = some (t, kind) → (s.slots t).slot0 = l.mainStack
  free : s.current = none → s.memory.initStackInUse = false

/-- The state after a hook of a task. -/
def State.after (s : State ι) (t : ι) (v : View) (phase : Phase) (current : Option (ι × Kind))
    (own : Ptr) : State ι where
  memory := v.memory
  slots := update s.slots t v.slots
  phase := update s.phase t phase
  current := current
  own := update s.own t own

/-- What a step does. -/
def Moves (s : State ι) : Label ι → State ι → Prop
  | .start t kind _, s' => s.current = none ∧ s.phase t = .fresh ∧ ∃ v : View, v.Main l ∧
      v.memory = { s.memory with initStackInUse := true } ∧ v.slots.slot0 = l.mainStack ∧
      s' = s.after t v .running (some (t, kind)) 0
  | .set ctx, s' => ∃ t kind, s.current = some (t, kind) ∧ s' = { s with
      memory.taskContext := update s.memory.taskContext l.mainTls ctx
      own := update s.own t ctx }
  | .get, s' => s' = s
  | .block, s' => ∃ t, s.current = some (t, .async) ∧ ∃ v : View, v.Main l ∧
      v.memory = { s.memory with
        taskContext := update s.memory.taskContext l.mainTls 0
        initStackInUse := false } ∧
      v.slots.slot0 = s.memory.taskContext l.mainTls ∧
      s' = s.after t v .blocked none (s.own t)
  | .resume t _, s' => s.current = none ∧ s.phase t = .blocked ∧ ∃ v : View, v.Main l ∧
      v.memory = { s.memory with
        taskContext := update s.memory.taskContext l.mainTls (s.slots t).slot0
        initStackInUse := true } ∧
      v.slots.slot0 = l.mainStack ∧
      s' = s.after t v .running (some (t, .async)) (s.own t)
  | .finish, s' => ∃ t kind, s.current = some (t, kind) ∧ ∃ v : View, v.Main l ∧
      v.memory = { s.memory with initStackInUse := false } ∧
      s' = s.after t v .finished none (s.own t)
  | .realloc, s' => s' = s

variable {l} {s s' : State ι} {a : Label ι}

omit [DecidableEq ι] in
theorem Inv.tlsBase (h : Inv l s) (hcur : s.current = some (t, kind)) :
    tlsBase l (s.slots t) = l.mainTls :=
  (h.main t (.inl (h.running t kind hcur))).tlsBase

theorem Inv.performSet (h : Inv l s) (hcur : s.current = some (t, kind))
    (ctx : Ptr) :
    s.perform t (taskContextSet l ctx) = some ((), { s with
      memory.taskContext := update s.memory.taskContext l.mainTls ctx }) := by
  have hrun : taskContextSet l ctx ⟨s.memory, s.slots t⟩ = .ok ((), ⟨{ s.memory with
      taskContext := update s.memory.taskContext (Task.tlsBase l (s.slots t)) ctx },
      s.slots t⟩) := rfl
  simp [State.perform, hrun, h.tlsBase hcur]

/-- What the running task sees is the context in the storage of the main
thread. -/
theorem Inv.performGet (h : Inv l s) (hcur : s.current = some (t, kind)) :
    s.perform t (taskContextGet l) = some (s.memory.taskContext l.mainTls, s) := by
  have hrun : taskContextGet l ⟨s.memory, s.slots t⟩ =
      .ok (s.memory.taskContext (Task.tlsBase l (s.slots t)), ⟨s.memory, s.slots t⟩) := rfl
  simp [State.perform, hrun, h.tlsBase hcur]

theorem Inv.moves (h : Inv l s) (hstep : step l s a = some s') : Moves l s a s' := by
  cases a with
  | start t kind answer =>
    simp only [step] at hstep
    split at hstep
    case isFalse => cases hstep
    case isTrue hguard =>
      obtain ⟨_, v, ⟨hmain, hmem, hslot⟩, hrun⟩ := State.perform_of_wp
        (hook_start answer kind (h.fresh t hguard.2) (h.free hguard.1))
      rw [hrun] at hstep
      cases hstep
      exact ⟨hguard.1, hguard.2, v, hmain, hmem, hslot, rfl⟩
  | set ctx =>
    cases hcur : s.current with
    | none => simp [step, hcur] at hstep
    | some c =>
      obtain ⟨t, kind⟩ := c
      simp only [step, hcur, Option.bind_eq_bind, Option.bind_some, h.performSet hcur] at hstep
      cases hstep
      exact ⟨t, kind, hcur, by rw [hcur]⟩
  | get =>
    cases hcur : s.current with
    | none => simp [step, hcur] at hstep
    | some c =>
      obtain ⟨t, kind⟩ := c
      simp only [step, hcur, Option.bind_eq_bind, Option.bind_some, h.performGet hcur] at hstep
      exact (Option.some.inj hstep).symm
  | block =>
    simp only [step] at hstep
    split at hstep
    case h_2 => cases hstep
    case h_1 t hcur =>
      obtain ⟨_, v, ⟨hmain, hmem, hslot⟩, hrun⟩ := State.perform_of_wp
        (hook_block 0 (h.main t (.inl (h.running t _ hcur))) (h.stack t _ hcur))
      rw [hrun] at hstep
      cases hstep
      exact ⟨t, hcur, v, hmain, hmem, hslot, by simp [State.after]⟩
  | resume t answer =>
    simp only [step] at hstep
    split at hstep
    case isFalse => cases hstep
    case isTrue hguard =>
      obtain ⟨_, v, ⟨hmain, hmem, hslot⟩, hrun⟩ := State.perform_of_wp
        (hook_resume answer (h.main t (.inr hguard.2)) (h.free hguard.1))
      rw [hrun] at hstep
      cases hstep
      exact ⟨hguard.1, hguard.2, v, hmain, hmem, hslot, by simp [State.after]⟩
  | finish =>
    cases hcur : s.current with
    | none => simp [step, hcur] at hstep
    | some c =>
      obtain ⟨t, kind⟩ := c
      obtain ⟨_, v, ⟨hmain, hmem⟩, hrun⟩ := State.perform_of_wp
        (hook_finish 0 kind (h.main t (.inl (h.running t kind hcur))) (h.stack t kind hcur))
      simp only [step, hcur, Option.bind_eq_bind, Option.bind_some, hrun] at hstep
      cases hstep
      exact ⟨t, kind, hcur, v, hmain, hmem, by simp [State.after]⟩
  | realloc =>
    obtain ⟨_, v, hrun, hmem⟩ := exists_ok_of_wp (hook_realloc (l := l) 0 s.memory)
    simp only [step, hrun, hmem] at hstep
    exact (Option.some.inj hstep).symm

omit [DecidableEq ι] in
theorem inv_init : Inv l (init ι) := by
  constructor <;> simp [init]

/-- The parts of the invariant about the other tasks are not touched by a hook. -/
theorem Inv.after (h : Inv l s) {v : View} {phase : Phase} {current : Option (ι × Kind)}
    {own : Ptr} (hmain : v.Main l) (hphase : phase ≠ .fresh)
    (hcur : ∀ c ∈ current, c.1 = t ∧ phase = .running ∧ v.slots.slot0 = l.mainStack)
    (hfree : current = none → v.memory.initStackInUse = false) :
    Inv l (s.after t v phase current own) := by
  refine ⟨fun t' kind h' => ?_, fun t' h' => ?_, fun t' h' => ?_, fun t' kind h' => ?_, hfree⟩
  · obtain ⟨rfl, hp, -⟩ := hcur _ h'
    simpa [State.after] using hp
  · by_cases ht : t' = t
    · subst ht
      simpa [State.after, View.Main] using hmain
    · simp only [State.after, update_of_ne ht] at h' ⊢
      exact h.main t' h'
  · by_cases ht : t' = t
    · subst ht
      simp only [State.after, update_self] at h'
      exact absurd h' hphase
    · simp only [State.after, update_of_ne ht] at h' ⊢
      exact h.fresh t' h'
  · obtain ⟨rfl, -, hslot⟩ := hcur _ h'
    simpa [State.after] using hslot

theorem Inv.step (h : Inv l s) (hstep : step l s a = some s') : Inv l s' := by
  have hmoves := h.moves hstep
  cases a with
  | start t kind answer =>
    obtain ⟨-, -, v, hmain, hmem, hslot, rfl⟩ := hmoves
    exact h.after hmain (by simp) (by simp [hslot]) (by simp)
  | set ctx =>
    obtain ⟨t, kind, hcur, rfl⟩ := hmoves
    exact ⟨h.running, h.main, h.fresh, h.stack, h.free⟩
  | get => exact hmoves ▸ h
  | block =>
    obtain ⟨t, hcur, v, hmain, hmem, hslot, rfl⟩ := hmoves
    exact h.after hmain (by simp) (by simp) (by simp [hmem])
  | resume t answer =>
    obtain ⟨-, -, v, hmain, hmem, hslot, rfl⟩ := hmoves
    exact h.after hmain (by simp) (by simp [hslot]) (by simp)
  | finish =>
    obtain ⟨t, kind, hcur, v, hmain, hmem, rfl⟩ := hmoves
    exact h.after hmain (by simp) (by simp) (by simp [hmem])
  | realloc => exact hmoves ▸ h

/-! ## Isolation -/

/-- The task context is the one of the running task, and those of the blocked
tasks are saved. -/
structure Faithful (l : Layout) (s : State ι) : Prop extends Inv l s where
  cell : ∀ t kind, s.current = some (t, kind) → s.memory.taskContext l.mainTls = s.own t
  saved : ∀ t, s.phase t = .blocked → (s.slots t).slot0 = s.own t

/-- A hook of a task leaves what the others have saved. -/
theorem Faithful.saved_after (h : Faithful l s) {v : View} {phase : Phase}
    {current : Option (ι × Kind)} {own : Ptr} (hown : phase = .blocked → v.slots.slot0 = own)
    (t' : ι) (h' : (s.after t v phase current own).phase t' = .blocked) :
    ((s.after t v phase current own).slots t').slot0 =
      (s.after t v phase current own).own t' := by
  by_cases ht : t' = t
  · subst ht
    simp only [State.after, update_self] at h' ⊢
    exact hown h'
  · simp only [State.after, update_of_ne ht] at h' ⊢
    exact h.saved t' h'

theorem Faithful.step (h : Faithful l s) (hclean : Clean l s a) (hstep : step l s a = some s') :
    Faithful l s' := by
  have hinv := h.toInv.step hstep
  have hmoves := h.toInv.moves hstep
  cases a with
  | start t kind answer =>
    obtain ⟨-, -, v, -, hmem, -, rfl⟩ := hmoves
    refine ⟨hinv, ?_, h.saved_after (by simp)⟩
    rintro t' kind' ⟨⟩
    simp only [State.after, hmem, update_self]
    exact hclean
  | set ctx =>
    obtain ⟨t, kind, hcur, rfl⟩ := hmoves
    refine ⟨hinv, ?_, ?_⟩
    · intro t' kind' h'
      cases hcur.symm.trans h'
      simp
    · intro t' h'
      have ht : t' ≠ t := by
        rintro rfl
        exact absurd ((h.running t' kind hcur).symm.trans h') (by simp)
      simpa [update_of_ne ht] using h.saved t' h'
  | get => exact hmoves ▸ h
  | block =>
    obtain ⟨t, hcur, v, -, -, hslot, rfl⟩ := hmoves
    exact ⟨hinv, by simp [State.after], h.saved_after fun _ => hslot.trans (h.cell t _ hcur)⟩
  | resume t answer =>
    obtain ⟨-, hblocked, v, -, hmem, -, rfl⟩ := hmoves
    refine ⟨hinv, ?_, h.saved_after (by simp)⟩
    rintro t' kind' ⟨⟩
    simp only [State.after, hmem, update_self]
    exact h.saved t hblocked
  | finish =>
    obtain ⟨t, kind, -, v, -, -, rfl⟩ := hmoves
    exact ⟨hinv, by simp [State.after], h.saved_after (by simp)⟩
  | realloc => exact hmoves ▸ h

theorem Inv.isolated_iff (h : Inv l s) :
    Isolated l s ↔
      ∀ t kind, s.current = some (t, kind) → s.memory.taskContext l.mainTls = s.own t := by
  refine forall_congr' fun t => forall_congr' fun kind => imp_congr_right fun hcur => ?_
  rw [State.seen, h.performGet hcur, Option.map_some, Option.some.injEq]

/-- In every run in which tasks start only while the task context is `NULL`,
each task sees what it has set.  In any run, a task that starts while it is
not sees the context of another. -/
theorem isolated_of_clean (l : Layout) :
    (∀ s : State ι, Reaches (Task.step l) (Clean l) (init ι) s → Isolated l s) ∧
    ∀ (s s' : State ι) (t : ι) (kind : Kind) (answer : Ptr),
      Reaches (Task.step l) (fun _ _ => True) (init ι) s →
      Task.step l s (.start t kind answer) = some s' →
      (Isolated l s' ↔ Clean l s (.start t kind answer)) := by
  constructor
  · intro s hs
    have h : Faithful l s := hs.invariant ⟨inv_init, by simp [init], by simp [init]⟩
      fun _ _ _ h hclean hstep => h.step hclean hstep
    exact h.isolated_iff.mpr h.cell
  · intro s s' t kind answer hs hstep
    have h : Inv l s := hs.invariant inv_init fun _ _ _ h _ hstep => h.step hstep
    rw [(h.step hstep).isolated_iff]
    obtain ⟨-, -, v, -, hmem, -, rfl⟩ := h.moves hstep
    simp [State.after, hmem, Clean]

/-- A build without cooperative threads. -/
def layout : Layout := ⟨false, 1024, 65536, 65536, 2048⟩

/-- Two async tasks take turns, each with a context. -/
def turns : List (Label Nat) :=
  [.start 0 .async 0, .set 5, .block, .start 1 .async 0, .set 6, .block, .resume 0 0, .get]

/-- `Clean`, as a test. -/
def clean (s : State Nat) : Label Nat → Bool
  | .start _ _ _ => s.memory.taskContext layout.mainTls = 0
  | _ => true

theorem isolated_of_clean_turns :
    ∃ s, Reaches (step layout) (Clean layout) (init Nat) s ∧ s.current = some (0, .async) ∧
      s.own 0 = 5 ∧ s.own 1 = 6 ∧ Isolated layout s := by
  have htest : ∀ s a, clean s a = true → Clean layout s a := fun s a h => by
    cases a with
    | start t kind answer => simpa [clean, Clean] using h
    | _ => trivial
  have hrun : ∃ s, turns.foldlM (fun s a => if clean s a then step layout s a else none)
      (init Nat) = some s ∧ s.current = some (0, .async) ∧ s.own 0 = 5 ∧ s.own 1 = 6 :=
    ⟨_, rfl, rfl, rfl, rfl⟩
  obtain ⟨s, hs, hcur, hzero, hone⟩ := hrun
  have hreach := reaches_of_foldlM_test htest hs
  exact ⟨s, hreach, hcur, hzero, hone, (isolated_of_clean layout).1 s hreach⟩

/-- Task 0 finishes without setting its context back, and task 1 sees it. -/
theorem leaked_context :
    ∃ s, Reaches (step layout) (fun _ _ => True) (init Nat) s ∧
      s.current = some (1, .sync) ∧ s.own 1 = 0 ∧ s.seen layout 1 = some 5 ∧
      ¬ Isolated layout s := by
  have hrun : ∃ s, ([.start 0 .sync 0, .set 5, .finish, .start 1 .sync 0] :
      List (Label Nat)).foldlM (step layout) (init Nat) = some s ∧
      s.current = some (1, .sync) ∧ s.own 1 = 0 ∧ s.seen layout 1 = some 5 :=
    ⟨_, rfl, rfl, rfl, rfl⟩
  obtain ⟨s, hs, hcur, hown, hseen⟩ := hrun
  refine ⟨s, reaches_of_foldlM hs, hcur, hown, hseen, fun h => ?_⟩
  have hsame := h 1 .sync hcur
  rw [hseen, hown] at hsame
  cases hsame

end WasiLibc.Task

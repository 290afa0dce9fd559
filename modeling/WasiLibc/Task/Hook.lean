import WasiLibc.Lib.Wp
import WasiLibc.Waitable

/-!
# WasiLibc.Task.Hook

`__wasm_task_hook`, which runs when a component-model task starts, blocks,
resumes or finishes: it gives the task a stack, and saves and restores the
task context.

A task has two context slots of its own.  Slot 0 is the stack pointer, and
holds the task context while an async task is blocked; slot 1 is the base of
thread-local storage in builds with cooperative threads.  `task_context` is
thread-local, and all tasks share the storage of the main thread.
-/

namespace WasiLibc.Task

open Wp

/-- A pointer; `NULL` is 0. -/
abbrev Ptr := Nat

/-- What the linker fixes. -/
structure Layout where
  /-- `__wasi_cooperative_threads__`. -/
  coop : Bool
  /-- `__wasilibc_tls_main_thread_base`. -/
  mainTls : Ptr
  /-- `__init_stack_pointer`. -/
  mainStack : Ptr
  /-- `get_stack_bounds().size`. -/
  stackSize : Nat
  /-- The end of `hook_stack`. -/
  hookStack : Ptr

/-- The memory of the library that matters here. -/
structure Memory where
  /-- `task_context`, in the thread-local storage at a base. -/
  taskContext : Ptr → Ptr
  initStackInUse : Bool
  /-- The blocks that hold stacks. -/
  blocks : List Ptr

/-- The context slots of a task. -/
structure Slots where
  slot0 : Ptr
  slot1 : Ptr
deriving DecidableEq, Repr

/-- What the code of a task works on. -/
structure View where
  memory : Memory
  slots : Slots

abbrev M := StateT View (Except Fault)

section

variable (l : Layout)

/-! ## The task context -/

/-- The base of the thread-local storage that is in use. -/
def tlsBase (slots : Slots) : Ptr := if l.coop then slots.slot1 else l.mainTls

/-- `__wasilibc_task_context_get`. -/
def taskContextGet : M Ptr := do
  let v ← get
  return v.memory.taskContext (tlsBase l v.slots)

/-- `__wasilibc_task_context_set`. -/
def taskContextSet (ctx : Ptr) : M PUnit :=
  modify fun v => { v with
    memory.taskContext := Function.update v.memory.taskContext (tlsBase l v.slots) ctx }

/-! ## Stacks -/

/-- `task_stack_alloc`; `answer` is what `malloc` returns if it is called. -/
def taskStackAlloc (answer : Ptr) : M Ptr := do
  if (← get).memory.initStackInUse then
    require (answer ≠ 0) .trap
    modify fun v => { v with memory.blocks := answer :: v.memory.blocks }
    return answer + l.stackSize
  else
    modify fun v => { v with memory.initStackInUse := true }
    return l.mainStack

/-- `task_stack_free`; to free what is not allocated is a fault. -/
def taskStackFree (stack : Ptr) : M PUnit := do
  if stack = l.mainStack then
    modify fun v => { v with memory.initStackInUse := false }
  else
    require (stack - l.stackSize ∈ (← get).memory.blocks) .trap
    modify fun v => { v with memory.blocks := v.memory.blocks.erase (stack - l.stackSize) }

/-- `setup_implicit_main_tls`. -/
def setupImplicitMainTls : M PUnit :=
  if l.coop then modify fun v => { v with slots.slot1 := l.mainTls } else return

/-! ## The hook -/

/-- The codes that are passed to the hook. -/
inductive Hook where
  | syncStart
  | syncFinish
  | asyncStart
  | asyncResume
  | asyncBlock
  | asyncFinish
  | initializeStart
  | initializeFinish
  | resourceDtorStart
  | resourceDtorFinish
  | postReturnStart
  | postReturnFinish
  | reallocStart
  | reallocFinish
deriving DecidableEq, Repr

/-- A unit of work begins. -/
def startUnit (answer prevContext0 : Ptr) : M Ptr := do
  setupImplicitMainTls l
  require (prevContext0 = 0) .assert
  taskStackAlloc l answer

/-- A unit of work is complete. -/
def finishUnit (prevContext0 : Ptr) : M Ptr := do
  taskStackFree l prevContext0
  return 0

/-- `__wasilibc_task_hook`. -/
def taskHook (answer : Ptr) (hook : Hook) (prevContext0 hookStack : Ptr) : M Ptr :=
  match hook with
  | .syncStart | .asyncStart | .initializeStart | .resourceDtorStart | .postReturnStart =>
    startUnit l answer prevContext0
  | .syncFinish | .asyncFinish | .initializeFinish | .resourceDtorFinish | .postReturnFinish =>
    finishUnit l prevContext0
  | .asyncBlock => do
    taskStackFree l prevContext0
    let toPreserve ← taskContextGet l
    taskContextSet l 0
    return toPreserve
  | .asyncResume => do
    taskContextSet l prevContext0
    taskStackAlloc l answer
  | .reallocStart => do
    setupImplicitMainTls l
    require (prevContext0 = 0) .assert
    return hookStack
  | .reallocFinish => do
    require (prevContext0 = hookStack) .assert
    return 0

/-- `__wasm_task_hook`: the hook runs on a stack of its own, and its result
becomes the stack pointer. -/
def wasmTaskHook (answer : Ptr) (hook : Hook) : M PUnit := do
  let prevContext0 := (← get).slots.slot0
  modify fun v => { v with slots.slot0 := l.hookStack }
  let stack ← taskHook l answer hook prevContext0 l.hookStack
  modify fun v => { v with slots.slot0 := stack }

end

end WasiLibc.Task

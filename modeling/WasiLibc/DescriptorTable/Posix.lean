import WasiLibc.DescriptorTable.Table

/-!
# WasiLibc.DescriptorTable.Posix

What a descriptor table is for: a finite map from descriptors to objects,
and the effect POSIX gives `dup`, `dup2`, `dup3`, `F_DUPFD` and `close` on
it.  Nothing here knows about slots, hints or reference counts.

`Posix m op realloc reply m'` says that a call `op` on the map `m` may
answer `reply` and leave the map `m'`, where `realloc` says whether memory
can be had.  Each error constructor leaves the map as it was.
-/

namespace WasiLibc.DescriptorTable

/-- A finite map from descriptors to objects. -/
@[ext]
structure FdMap (α : Type*) where
  bind : Nat → Option α
  finite : {fd | bind fd ≠ none}.Finite

namespace FdMap

variable {α : Type*}

def empty : FdMap α := ⟨fun _ => none, by simp⟩

/-- Make `fd` denote `a`, or nothing. -/
def update (m : FdMap α) (fd : Nat) (a : Option α) : FdMap α where
  bind := Function.update m.bind fd a
  finite := by
    refine (m.finite.insert fd).subset fun i hi => ?_
    by_cases hfd : i = fd
    · exact .inl hfd
    · rw [Set.mem_ofPred_eq, Function.update_of_ne hfd] at hi
      exact .inr hi

/-- What a descriptor passed as a C `int` denotes. -/
def find (m : FdMap α) (fd : Int) : Option α := if fd < 0 then none else m.bind fd.toNat

/-- The unoccupied descriptors from `arg` on. -/
def free (m : FdMap α) (arg : Nat) : Set Nat := {n | arg ≤ n ∧ m.bind n = none}

end FdMap

/-- The calls a client makes; `release` gives back a reference obtained from
`get`. -/
inductive Op (α : Type*) where
  | insert (a : α)
  | get (fd : Int)
  | dup (fd : Int) (op : DupOp) (arg : Int)
  | remove (fd : Int)
  | clear
  | release (a : α)
  deriving DecidableEq, Repr

/-- What a call returns: a descriptor, an object, plain success, or -1 with
`errno`. -/
inductive Reply (α : Type*) where
  | fd (n : Nat)
  | object (a : α)
  | done
  | error (e : Errno)
  deriving DecidableEq, Repr

/-- The descriptors that `dup2`, `dup3` and `F_DUPFD` accept as targets. -/
def Target (arg : Int) : Prop := 0 ≤ arg ∧ arg < maxDescriptor

/-- The effect of one call on the map of open descriptors. -/
inductive Posix {α : Type*} (m : FdMap α) : Op α → Bool → Reply α → FdMap α → Prop
  | insert {a fd realloc} : IsLeast (m.free 0) fd →
      Posix m (.insert a) realloc (.fd fd) (m.update fd (some a))
  | insertNomem {a} : Posix m (.insert a) false (.error .ENOMEM) m
  | get {fd a realloc} : m.find fd = some a → Posix m (.get fd) realloc (.object a) m
  | getBadf {fd realloc} : m.find fd = none → Posix m (.get fd) realloc (.error .EBADF) m
  | dupBadf {fd op arg realloc} : m.find fd = none →
      Posix m (.dup fd op arg) realloc (.error .EBADF) m
  | dup {fd a arg n realloc} : m.find fd = some a → IsLeast (m.free 0) n →
      Posix m (.dup fd .dup arg) realloc (.fd n) (m.update n (some a))
  | dupNomem {fd a arg} : m.find fd = some a →
      Posix m (.dup fd .dup arg) false (.error .ENOMEM) m
  | dup2Self {fd a realloc} : m.find fd = some a →
      Posix m (.dup fd .dup2 fd) realloc (.fd fd.toNat) m
  | dup3Self {fd a realloc} : m.find fd = some a →
      Posix m (.dup fd .dup3 fd) realloc (.error .EINVAL) m
  | onto {fd a op arg realloc} : op = .dup2 ∨ op = .dup3 → m.find fd = some a → fd ≠ arg →
      Target arg → Posix m (.dup fd op arg) realloc (.fd arg.toNat) (m.update arg.toNat (some a))
  | ontoRange {fd a op arg realloc} : op = .dup2 ∨ op = .dup3 → m.find fd = some a → fd ≠ arg →
      ¬ Target arg → Posix m (.dup fd op arg) realloc (.error .EBADF) m
  | ontoNomem {fd a op arg} : op = .dup2 ∨ op = .dup3 → m.find fd = some a → fd ≠ arg →
      Target arg → Posix m (.dup fd op arg) false (.error .ENOMEM) m
  | dupfd {fd a arg n realloc} : m.find fd = some a → Target arg →
      IsLeast (m.free arg.toNat) n →
      Posix m (.dup fd .dupfd arg) realloc (.fd n) (m.update n (some a))
  | dupfdRange {fd a arg realloc} : m.find fd = some a → ¬ Target arg →
      Posix m (.dup fd .dupfd arg) realloc (.error .EINVAL) m
  | dupfdNomem {fd a arg} : m.find fd = some a → Target arg →
      Posix m (.dup fd .dupfd arg) false (.error .ENOMEM) m
  | remove {fd a realloc} : m.find fd = some a →
      Posix m (.remove fd) realloc .done (m.update fd.toNat none)
  | removeBadf {fd realloc} : m.find fd = none →
      Posix m (.remove fd) realloc (.error .EBADF) m
  | clear {realloc} : Posix m .clear realloc .done .empty
  | release {a realloc} : Posix m (.release a) realloc .done m

/-- A call, with what `realloc` will answer if it is asked. -/
structure Call (α : Type*) where
  op : Op α
  realloc : Bool

/-- A sequence of calls from one map to another, with the replies. -/
inductive PosixRun {α : Type*} : FdMap α → List (Call α) → List (Reply α) → FdMap α → Prop
  | nil {m} : PosixRun m [] [] m
  | cons {m m' m'' call calls r rs} : Posix m call.op call.realloc r m' →
      PosixRun m' calls rs m'' → PosixRun m (call :: calls) (r :: rs) m''

end WasiLibc.DescriptorTable

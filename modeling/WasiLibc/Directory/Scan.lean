import WasiLibc.Directory.Cursor
import WasiLibc.Directory.Skips
import WasiLibc.Lib.Linear
import WasiLibc.Lib.Wp

/-!
# WasiLibc.Directory.Scan

`scandirat`, with the memory and the descriptor that it takes and gives back.

What `fdopendir` and `readdir` do apart from that is the matter of an
`Interface`; `preview1` and `preview2` are the ones of the targets.
-/

namespace WasiLibc.Directory.Scan

open Wp Linear Errno

/-- The directory streams of a target. -/
structure Interface (D ε : Type) where
  /-- `sizeof(DIR)`. -/
  dirSize : Nat
  /-- Has a stream a read buffer? -/
  buffered : Bool
  /-- What the host makes of the descriptor in `fdopendir`. -/
  opened : Except Errno D
  /-- `readdir` with `errno` cleared: the entry or NULL, `errno` and the
  stream.  Some calls do not return. -/
  readdir : D → Option (Option ε × Option Errno × D)
  name : ε → List UInt8
  /-- The size of the read buffer, 0 if there is none. -/
  bufferSize : D → Nat
  direntSize : D → Nat

/-- The streams of wasip1, with a limit to the turns of a `readdir`. -/
def preview1 (env : Buffer.Env) (turns : Nat) : Interface Buffer.Dir Buffer.Dirent where
  dirSize := Buffer.Dir.size
  buffered := true
  opened := do
    let buffer ← env.fdReaddir Buffer.defaultBufferSize 0
    return ⟨0, buffer, 0, Buffer.defaultBufferSize, buffer.length, 1⟩
  readdir d := (Loop.run (Buffer.turnErrno env) turns (none, d)).map fun r =>
    (r.1.toOption.join, r.2.1, r.2.2)
  name e := e.dName
  bufferSize d := d.bufferSize
  direntSize d := d.direntSize

/-- The streams of wasip2 and wasip3. -/
def preview2 (target : Cursor.Target) (env : Cursor.Env) : Interface Cursor.Dir Cursor.Dirent where
  dirSize := match target with
    | .wasip2 => 24
    | .wasip3 => 32
  buffered := false
  opened := do
    env.handle
    env.readDirectory
    return ⟨some 0, true, false, 0, 0, 1, 0⟩
  readdir d :=
    match Cursor.readdir target env d with
    | (.ok e, d) => some (e, none, d)
    | (.error e, d) => some (none, some e, d)
  name e := e.dName
  bufferSize _ := 0
  direntSize d := d.direntSize

/-! ## Memory and descriptors -/

/-- The allocator. -/
structure Memory where
  /-- Is the `n`th request, of this size, granted? -/
  granted : Nat → Nat → Bool
  /-- Is `errno` set for a request that is not? -/
  setsErrno : Bool

/-- Memory without end. -/
def Memory.plenty : Memory := ⟨fun _ _ => true, true⟩

inductive Resource where
  | descriptor (n : Nat)
  | block (n : Nat)
deriving DecidableEq, Repr

def Resource.number : Resource → Nat
  | descriptor n => n
  | block n => n

/-- A copy of a dirent with this name: the bytes that are read, and the bytes
that it has. -/
structure Copy where
  name : List UInt8
  read : Nat
  room : Nat
deriving DecidableEq, Repr

structure World where
  log : List (Event Resource)
  /-- The next number that has not been used. -/
  next : Nat
  requests : Nat
  errno : Option Errno
  copies : List Copy

/-- A process that holds nothing yet. -/
def World.initial : World := ⟨[], 0, 0, none, []⟩

/-- A call of `readdir` does not return. -/
inductive Fault where
  | hang
deriving DecidableEq, Repr

abbrev M := StateT World (Except Fault)

def setErrno (errno : Option Errno) : M PUnit := modify fun w => { w with errno := errno }

/-- A number for something new. -/
def acquire (make : Nat → Resource) : M Nat := do
  let w ← get
  modify fun w => { w with log := w.log ++ [.acquire (make w.next)], next := w.next + 1 }
  return w.next

def release (r : Resource) : M PUnit := modify fun w => { w with log := w.log ++ [.release r] }

def malloc (mem : Memory) (size : Nat) : M (Option Nat) := do
  let w ← get
  modify fun w => { w with requests := w.requests + 1 }
  if mem.granted w.requests size then
    let a ← acquire .block
    return some a
  else
    if mem.setsErrno then setErrno (some ENOMEM)
    return none

def free : Option Nat → M PUnit
  | none => pure ⟨⟩
  | some a => release (.block a)

def realloc (mem : Memory) (p : Option Nat) (size : Nat) : M (Option Nat) := do
  match ← malloc mem size with
  | none => return none
  | some a =>
    free p
    return some a

/-! ## Directory streams -/

/-- `DIR`. -/
structure Dirp (D : Type) where
  fd : Nat
  /-- The block of the `DIR` itself. -/
  dirp : Nat
  buffer : Option Nat
  dirent : Option Nat
  dir : D

variable {D ε : Type} (mem : Memory) (T : Interface D ε)

/-- The part of `fdopendir` that has its memory. -/
def openDir (fd dirp : Nat) (buffer : Option Nat) : M (Option (Dirp D)) :=
  match T.opened with
  | .error e => do
    free buffer
    free (some dirp)
    setErrno (some e)
    return none
  | .ok dir => return some ⟨fd, dirp, buffer, none, dir⟩

/-- `fdopendir`. -/
def fdopendir (fd : Nat) : M (Option (Dirp D)) := do
  match ← malloc mem T.dirSize with
  | none => return none
  | some dirp =>
    if T.buffered then
      match ← malloc mem Buffer.defaultBufferSize with
      | none =>
        free (some dirp)
        return none
      | some buffer => openDir T fd dirp (some buffer)
    else openDir T fd dirp none

/-- The block of something that `readdir` has grown. -/
def renew (before after : Nat) (p : Option Nat) : M (Option Nat) :=
  if before = after then pure p
  else do
    let a ← acquire .block
    free p
    return some a

/-- `readdir`. -/
def readdir (d : Dirp D) : M (Option ε × Dirp D) :=
  match T.readdir d.dir with
  | none => throw .hang
  | some (de, errno, dir) => do
    let buffer ← renew (T.bufferSize d.dir) (T.bufferSize dir) d.buffer
    let dirent ← renew (T.direntSize d.dir) (T.direntSize dir) d.dirent
    setErrno errno
    return (de, { d with buffer := buffer, dirent := dirent, dir := dir })

/-- `closedir`, with `fdclosedir`. -/
def closedir (d : Dirp D) : M PUnit := do
  free d.buffer
  free d.dirent
  free (some d.dirp)
  release (.descriptor d.fd)

/-! ## `scandirat` -/

/-- `SIZE_MAX / sizeof *names`. -/
@[irreducible] def maxLen : Nat := (2 ^ 32 - 1) / 4

/-- `sizeof(struct dirent)`, with the padding behind `d_type`. -/
def sizeofDirent : Nat := 16

/-- One of the copies in `names`. -/
structure Name (ε : Type) where
  addr : Nat
  entry : ε

/-- The array `names`, with `len` and the `cnt` names in it. -/
structure Names (ε : Type) where
  array : Option Nat
  len : Nat
  list : List (Name ε)

/-- The order in which `qsort` leaves the names. -/
structure Order (ε : Type) where
  sort : List (Name ε) → List (Name ε)
  perm : ∀ ns, (sort ns).Perm ns

/-- Room for one more pointer in `names`; `false` if there is none. -/
def makeRoom (ns : Names ε) : M (Bool × Names ε) :=
  if ns.len ≤ ns.list.length then
    let len := 2 * ns.len + 1
    if maxLen < len then pure (false, { ns with len := len })
    else do
      match ← realloc mem ns.array (len * 4) with
      | none => return (false, { ns with len := len })
      | some a => return (true, { ns with array := some a, len := len })
  else pure (true, ns)

/-- One turn of the loop, with an entry that is selected; `false` for
`break`. -/
def addName (d : Dirp D) (de : ε) (ns : Names ε) : M (Bool × Names ε) := do
  let (ok, ns) ← makeRoom mem ns
  if ok then
    let size := sizeofDirent + (T.name de).length + 1
    match ← malloc mem size with
    | none => return (false, ns)
    | some a =>
      modify fun w => { w with copies := w.copies ++ [⟨T.name de, size, T.direntSize d.dir⟩] }
      return (true, { ns with list := ns.list ++ [⟨a, de⟩] })
  else return (false, ns)

/-- The loop, with at most `n` calls of `readdir`. -/
def scanLoop (sel : ε → Bool) : Nat → Dirp D → Names ε → M (Dirp D × Names ε)
  | 0, _, _ => throw .hang
  | n + 1, d, ns => do
    setErrno none
    match ← readdir T d with
    | (none, d) => return (d, ns)
    | (some de, d) =>
      if sel de then
        let (ok, ns) ← addName mem T d de ns
        if ok then scanLoop sel n d ns else return (d, ns)
      else scanLoop sel n d ns

/-- `while (cnt-->0) free(names[cnt]);`. -/
def freeNames : List (Name ε) → M PUnit
  | [] => pure ⟨⟩
  | n :: ns => do
    freeNames ns
    free (some n.addr)

/-- The part of `scandirat` behind the loop. -/
def finish (oldErrno : Option Errno) (cmp : Option (Order ε)) (ns : Names ε) :
    M (Option (Names ε)) := do
  let w ← get
  if w.errno ≠ none then
    freeNames ns.list
    free ns.array
    return none
  else
    setErrno oldErrno
    match cmp with
    | none => return some ns
    | some order => return some { ns with list := order.sort ns.list }

/-- `__wasilibc_nocwd_scandirat`, with the result of `openat`. -/
def scandirat (openat : Except Errno Unit) (sel : ε → Bool) (cmp : Option (Order ε)) (n : Nat) :
    M (Option (Names ε)) :=
  match openat with
  | .error e => do
    setErrno (some e)
    return none
  | .ok _ => do
    let dirfd ← acquire .descriptor
    let d ← fdopendir mem T dirfd
    let w ← get
    match d with
    | none => return none
    | some d =>
      let (d, ns) ← scanLoop mem T sel n d ⟨none, 0, []⟩
      closedir d
      finish w.errno cmp ns

end WasiLibc.Directory.Scan

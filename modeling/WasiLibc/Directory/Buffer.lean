import WasiLibc.Directory.Grow
import WasiLibc.Errno
import WasiLibc.Lib.LittleEndian

/-!
# WasiLibc.Directory.Buffer

`readdir` of wasip1.  The host fills a buffer with serialised entries, cut
where the buffer ends; `readdir` takes the entries out of it one by one, and
fetches again, by the cookie of the last entry it returned, when the next one
is not wholly there.
-/

namespace WasiLibc.Directory.Buffer

open Errno LittleEndian

/-- `__wasi_dirent_t`. -/
structure Header where
  dNext : UInt64
  dIno : UInt64
  dNamlen : UInt32
  dType : UInt8
deriving DecidableEq, Repr

/-- `sizeof(__wasi_dirent_t)`. -/
def Header.size : Nat := 24

/-- A header in memory: its fields in order, and the padding. -/
def Header.bytes (h : Header) : List UInt8 :=
  encode 8 h.dNext.toNat ++ encode 8 h.dIno.toNat ++ encode 4 h.dNamlen.toNat ++ h.dType ::
    [0, 0, 0]

/-- `memcpy(&entry, ...)`. -/
def Header.ofBytes (bs : List UInt8) : Header where
  dNext := UInt64.ofNat (decode (bs.take 8))
  dIno := UInt64.ofNat (decode ((bs.drop 8).take 8))
  dNamlen := UInt32.ofNat (decode ((bs.drop 16).take 4))
  dType := (bs.drop 20).headD 0

/-- `struct dirent`: what the caller gets. -/
structure Dirent where
  dIno : UInt64
  dType : UInt8
  dName : List UInt8
deriving DecidableEq, Repr

/-- What `fstatat` tells about a name: the inode and the type. -/
structure Stat where
  ino : UInt64
  type : UInt8
deriving DecidableEq, Repr

/-- What `readdir` depends on. -/
structure Env where
  /-- `__wasi_fd_readdir`, for a size and a cookie. -/
  fdReaddir : Nat → UInt64 → Except Errno (List UInt8)
  /-- `fstatat` with `AT_SYMLINK_NOFOLLOW`. -/
  fstatat : List UInt8 → Except Errno Stat
  /-- Can so many bytes be allocated? -/
  alloc : Nat → Bool

/-- `DIR`. -/
structure Dir where
  cookie : UInt64
  buffer : List UInt8
  bufferProcessed : Nat
  bufferSize : Nat
  bufferUsed : Nat
  direntSize : Nat

/-- `DIRENT_DEFAULT_BUFFER_SIZE`. -/
def defaultBufferSize : Nat := 4096

/-- `grow`: the new size, or `none` if there is no memory. -/
def grow (env : Env) (size target : Nat) : Option Nat :=
  if size < target then
    let newSize := growSize size target
    if env.alloc newSize then some newSize else none
  else some size

/-- `sizeof(DIR)`. -/
def Dir.size : Nat := 40

/-- `fdopendir`. -/
def fdopendir (env : Env) : Except Errno Dir := do
  if !env.alloc Dir.size then throw ENOMEM
  if !env.alloc defaultBufferSize then throw ENOMEM
  let buffer ← env.fdReaddir defaultBufferSize 0
  return ⟨0, buffer, 0, defaultBufferSize, buffer.length, 1⟩

/-- How a turn of the loop in `readdir` ends: the call returns, or the loop
goes on. -/
inductive Turn where
  | done (result : Except Errno (Option Dirent)) (dir : Dir)
  | again (dir : Dir)

/-- The part of the loop behind the label `read_entries`. -/
def readEntries (env : Env) (d : Dir) : Turn :=
  match env.fdReaddir d.bufferSize d.cookie with
  | .error e => .done (.error e) { d with bufferUsed := d.bufferSize, bufferProcessed := d.bufferSize }
  | .ok bytes => .again { d with buffer := bytes, bufferUsed := bytes.length, bufferProcessed := 0 }

/-- The part of the loop that returns an entry which is wholly in the
buffer. -/
def takeEntry (env : Env) (d : Dir) (entry : Header) (name : List UInt8) : Turn :=
  let next := { d with bufferProcessed := d.bufferProcessed + Header.size + name.length }
  match grow env d.direntSize (nameOffset + name.length + 1) with
  | none => .done (.error ENOMEM) d
  | some size =>
    -- the inode is unknown
    if entry.dIno = 0 ∧ name ≠ [0x2E, 0x2E] then
      match env.fstatat name with
      -- the file disappeared before it could be read
      | .error ENOENT => .again { next with direntSize := size }
      | .error e => .done (.error e) { d with direntSize := size }
      | .ok stat =>
        .done (.ok (some ⟨stat.ino, stat.type, name⟩))
          { next with direntSize := size, cookie := entry.dNext }
    else
      .done (.ok (some ⟨entry.dIno, entry.dType, name⟩))
        { next with direntSize := size, cookie := entry.dNext }

/-- One turn of the loop in `readdir`. -/
def turn (env : Env) (d : Dir) : Turn :=
  let left := d.bufferUsed - d.bufferProcessed
  if left < Header.size then
    -- end of file
    if d.bufferUsed < d.bufferSize then .done (.ok none) d else readEntries env d
  else
    let entry := Header.ofBytes (d.buffer.drop d.bufferProcessed)
    let namlen := entry.dNamlen.toNat
    let entrySize := Header.size + namlen
    let skip := { d with bufferProcessed := d.bufferProcessed + entrySize }
    if namlen = 0 then .again skip
    else if left < entrySize then
      match grow env d.bufferSize entrySize with
      | none => .done (.error ENOMEM) d
      | some size => readEntries env { d with bufferSize := size }
    else
      let name := (d.buffer.drop (d.bufferProcessed + Header.size)).take namlen
      if 0 ∈ name then .again skip
      else takeEntry env d entry name

/-- `readdir`: at most `fuel` turns of its loop. -/
def readdir (env : Env) : Nat → Dir → Option (Except Errno (Option Dirent) × Dir)
  | 0, _ => none
  | fuel + 1, d =>
    match turn env d with
    | .done result d => some (result, d)
    | .again d => readdir env fuel d

/-- The results of `n` calls. -/
def readdirs (env : Env) (fuel : Nat) : Nat → Dir → Option (List (Except Errno (Option Dirent)))
  | 0, _ => some []
  | n + 1, d => do
    let (result, d) ← readdir env fuel d
    let results ← readdirs env fuel n d
    return result :: results

/-! ## A directory that does not change -/

/-- An entry of a directory. -/
structure Entry where
  next : UInt64
  ino : UInt64
  type : UInt8
  name : List UInt8
  nonempty : name ≠ []
  nulFree : 0 ∉ name
  /-- The length of the name is a `__wasi_dirnamlen_t`. -/
  fits : name.length < 2 ^ 32

def Entry.header (e : Entry) : Header := ⟨e.next, e.ino, UInt32.ofNat e.name.length, e.type⟩

/-- An entry as the host serialises it. -/
def Entry.bytes (e : Entry) : List UInt8 := e.header.bytes ++ e.name

def serialise (es : List Entry) : List UInt8 := es.flatMap Entry.bytes

/-- The entries behind the one with this cookie. -/
def following (cookie : UInt64) : List Entry → List Entry
  | [] => []
  | e :: es => if e.next = cookie then es else following cookie es

/-- The entries of a directory.  The cookies tell the places between them
apart, with 0 (`__WASI_DIRCOOKIE_START`) for the place in front of all. -/
structure Listing where
  entries : List Entry
  distinct : (0 :: entries.map Entry.next).Nodup

def Listing.after (L : Listing) (cookie : UInt64) : List Entry :=
  if cookie = 0 then L.entries else following cookie L.entries

/-- A host that serves the listing, and memory without end. -/
def Listing.env (L : Listing) (stat : List UInt8 → Stat) : Env where
  fdReaddir size cookie := .ok ((serialise (L.after cookie)).take size)
  fstatat name := .ok (stat name)
  alloc _ := true

/-- What `readdir` returns for an entry. -/
def Entry.dirent (stat : List UInt8 → Stat) (e : Entry) : Dirent :=
  if e.ino = 0 ∧ e.name ≠ [0x2E, 0x2E] then ⟨(stat e.name).ino, (stat e.name).type, e.name⟩
  else ⟨e.ino, e.type, e.name⟩

theorem Header.length_bytes (h : Header) : h.bytes.length = Header.size := by
  simp [Header.bytes, Header.size]

theorem Header.ofBytes_bytes (h : Header) (rest : List UInt8) :
    Header.ofBytes (h.bytes ++ rest) = h := by
  have hnext : decode (encode 8 h.dNext.toNat) = h.dNext.toNat :=
    decode_encode 8 h.dNext.toNat_lt
  have hino : decode (encode 8 h.dIno.toNat) = h.dIno.toNat := decode_encode 8 h.dIno.toNat_lt
  have hnamlen : decode (encode 4 h.dNamlen.toNat) = h.dNamlen.toNat :=
    decode_encode 4 h.dNamlen.toNat_lt
  have hdrop : (encode 8 h.dNext.toNat).drop 16 = [] := List.drop_of_length_le (by simp)
  unfold Header.ofBytes Header.bytes
  simp [List.drop_append, hdrop, hnext, hino, hnamlen]

theorem readdir_again {env : Env} {d d' : Dir} (h : turn env d = .again d') (fuel : Nat) :
    readdir env (fuel + 1) d = readdir env fuel d' := by
  rw [readdir, h]

end WasiLibc.Directory.Buffer

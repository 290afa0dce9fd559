import WasiLibc.Directory.Grow
import WasiLibc.Errno

/-!
# WasiLibc.Directory.Cursor

Directory streams of wasip2 and wasip3.  The host hands the entries out once
and in order, through a stream that can only be dropped and opened again.
The entries `.` and `..` come from the library, and `seekdir` only notes how
many entries the next `readdir` is to skip.

`run_refines` says that all of this is a cursor in the list of `.`, `..` and
the entries of the directory.
-/

namespace WasiLibc.Directory.Cursor

open Errno

/-- `filesystem_descriptor_type_t`. -/
inductive DescriptorType where
  | unknown
  | blockDevice
  | characterDevice
  | directory
  | fifo
  | symbolicLink
  | regularFile
  | socket
deriving DecidableEq, Repr

/-- The values of `d_type`. -/
inductive DType where
  | DT_UNKNOWN
  | DT_BLK
  | DT_CHR
  | DT_DIR
  | DT_FIFO
  | DT_LNK
  | DT_REG
  | DT_SOCK
deriving DecidableEq, Repr

open DType

def dirEntryTypeToDType : DescriptorType → DType
  | .unknown => DT_UNKNOWN
  | .blockDevice => DT_BLK
  | .characterDevice => DT_CHR
  | .directory => DT_DIR
  | .fifo => DT_FIFO
  | .symbolicLink => DT_LNK
  | .regularFile => DT_REG
  | .socket => DT_SOCK

/-- `filesystem_directory_entry_t`. -/
structure Entry where
  type : DescriptorType
  name : List UInt8
deriving DecidableEq, Repr

/-- `struct dirent`. -/
structure Dirent where
  dIno : UInt64
  dType : DType
  dName : List UInt8
deriving DecidableEq, Repr

/-- The two versions of the interface. -/
inductive Target where
  | wasip2
  | wasip3
deriving DecidableEq, Repr

/-- What the functions depend on. -/
structure Env where
  /-- `fd_to_file_handle`. -/
  handle : Except Errno Unit
  /-- `read-directory`; on wasip3 it does not fail. -/
  readDirectory : Except Errno Unit
  /-- The entry at a place of the stream; on wasip3 it does not fail. -/
  readDirectoryEntry : Nat → Except Errno (Option Entry)
  /-- The result of the future that belongs to the stream of wasip3. -/
  result : Except Errno Unit
  /-- The metadata hash of the directory. -/
  metadataHash : Except Errno UInt64
  /-- The metadata hash of an entry. -/
  metadataHashAt : List UInt8 → Except Errno UInt64
  /-- Can so many bytes be allocated? -/
  alloc : Nat → Bool
  /-- How often the `n`th read of the stream of wasip3 comes back without an
  entry before it ends. -/
  empty : Nat → Nat
  /-- Is the `n`th read of the stream told that the stream has ended together
  with the last entry? -/
  joined : Nat → Bool

/-- `DIR`, with the place of the host's stream for its handle, and the number
of reads that the host has answered. -/
structure Dir where
  stream : Option Nat
  /-- `stream.f1 != 0`. -/
  future : Bool
  streamDone : Bool
  skip : Nat
  offset : Nat
  direntSize : Nat
  reads : Nat
deriving DecidableEq, Repr

/-- `grow`: makes room for a name of length `len`. -/
def grow (env : Env) (d : Dir) (len : Nat) : Option Dir :=
  let target := nameOffset + len + 1
  if d.direntSize < target then
    let newSize := growSize d.direntSize target
    if env.alloc newSize then some { d with direntSize := newSize } else none
  else some d

/-- `fdopendir`. -/
def fdopendir (env : Env) : Except Errno Dir := do
  if !env.alloc 32 then throw ENOMEM
  env.handle
  env.readDirectory
  return ⟨some 0, true, false, 0, 0, 1, 0⟩

/-- `dirent_close_streams`. -/
def direntCloseStreams (target : Target) (d : Dir) : Dir :=
  match target with
  | .wasip2 => { d with stream := none }
  | .wasip3 =>
    { d with
      stream := none
      streamDone := if d.stream.isSome then false else d.streamDone
      future := false }

def seekdir (target : Target) (d : Dir) (loc : Nat) : Dir :=
  { direntCloseStreams target d with skip := loc, offset := 0 }

def rewinddir (target : Target) (d : Dir) : Dir :=
  { direntCloseStreams target d with skip := 0, offset := 0 }

def telldir (d : Dir) : Nat := d.offset + d.skip

/-- `ensure_has_directory_stream`. -/
def ensureHasDirectoryStream (env : Env) (d : Dir) : Except Errno Dir := do
  env.handle
  match d.stream with
  | some _ => return d
  | none =>
    env.readDirectory
    return { d with stream := some 0, future := true }

/-- The next entry of the stream of wasip2. -/
def nextEntry2 (env : Env) (pos : Nat) (d : Dir) : Except Errno (Option Entry) × Dir :=
  match env.readDirectoryEntry pos with
  | .error e => (.error e, d)
  | .ok none => (.ok none, d)
  | .ok (some entry) => (.ok (some entry), { d with stream := some (pos + 1) })

/-- The loop that reads from the stream of wasip3.  The first `n` reads bring
no entry; then one is read, or the stream is closed. -/
def readLoop (env : Env) (pos : Nat) : Nat → Dir → Except Errno (Option Entry) × Dir
  | n + 1, d => readLoop env pos n { d with reads := d.reads + 1 }
  | 0, d =>
    let d := { d with reads := d.reads + 1 }
    match env.readDirectoryEntry pos with
    | .ok (some entry) =>
      let last := match env.readDirectoryEntry (pos + 1) with
        | .ok (some _) => false
        | _ => env.joined d.reads
      (.ok (some entry), { d with stream := some (pos + 1), streamDone := last })
    | _ =>
      let d := { d with streamDone := true }
      if d.future then
        match env.result with
        | .ok () => (.ok none, { d with future := false })
        | .error e => (.error e, { d with future := false })
      else (.ok none, d)

/-- The next entry of the stream of wasip3. -/
def nextEntry3 (env : Env) (pos : Nat) (d : Dir) : Except Errno (Option Entry) × Dir :=
  if d.streamDone then (.ok none, d)
  else readLoop env pos (env.empty d.reads) d

def nextEntry (target : Target) (env : Env) (pos : Nat) (d : Dir) :
    Except Errno (Option Entry) × Dir :=
  match target with
  | .wasip2 => nextEntry2 env pos d
  | .wasip3 => nextEntry3 env pos d

/-- The part of `readdir_next` that yields an entry of the stream. -/
def yieldEntry (env : Env) (entry : Entry) (d : Dir) : Except Errno (Option Dirent) × Dir :=
  match grow env d entry.name.length with
  | none => (.error ENOMEM, d)
  | some d =>
    match env.metadataHashAt entry.name with
    | .error e => (.error e, d)
    | .ok hash =>
      (.ok (some ⟨hash, dirEntryTypeToDType entry.type, entry.name⟩),
        { d with offset := d.offset + 1 })

/-- `readdir_next`; NULL is `none` at the end of the directory, and an error
else. -/
def readdirNext (target : Target) (env : Env) (d : Dir) : Except Errno (Option Dirent) × Dir :=
  match ensureHasDirectoryStream env d with
  | .error e => (.error e, d)
  | .ok d =>
    if d.offset = 0 then
      let d := { d with offset := d.offset + 1 }
      match grow env d 1 with
      | none => (.error ENOMEM, d)
      | some d =>
        match env.metadataHash with
        | .error e => (.error e, d)
        | .ok hash => (.ok (some ⟨hash, DT_DIR, [0x2E]⟩), d)
    else if d.offset = 1 then
      let d := { d with offset := d.offset + 1 }
      match grow env d 2 with
      | none => (.error ENOMEM, d)
      | some d => (.ok (some ⟨0, DT_DIR, [0x2E, 0x2E]⟩), d)
    else
      match nextEntry target env (d.stream.getD 0) d with
      | (.error e, d) => (.error e, d)
      | (.ok none, d) => (.ok none, d)
      | (.ok (some entry), d) => yieldEntry env entry d

/-- The loop in `readdir` that skips entries, `n` of them at most. -/
def skipEntries (target : Target) (env : Env) :
    Nat → Except Errno (Option Dirent) × Dir → Except Errno (Option Dirent) × Dir
  | 0, r => r
  | n + 1, (.ok (some _), d) =>
    skipEntries target env n (readdirNext target env { d with skip := d.skip - 1 })
  | _ + 1, r => r

def readdir (target : Target) (env : Env) (d : Dir) : Except Errno (Option Dirent) × Dir :=
  skipEntries target env d.skip (readdirNext target env d)

/-! ## Sequences of calls -/

inductive Op where
  | readdir
  | telldir
  | rewinddir
  | seekdir (loc : Nat)
deriving DecidableEq, Repr

/-- What a call returns. -/
inductive Output where
  | entry (result : Except Errno (Option Dirent))
  | place (loc : Nat)
  | unit

def step (target : Target) (env : Env) (d : Dir) : Op → Output × Dir
  | .readdir => let (result, d) := readdir target env d; (.entry result, d)
  | .telldir => (.place (telldir d), d)
  | .rewinddir => (.unit, rewinddir target d)
  | .seekdir loc => (.unit, seekdir target d loc)

/-- The results of a sequence of calls. -/
def run (target : Target) (env : Env) : Dir → List Op → List Output
  | _, [] => []
  | d, op :: ops => (step target env d op).1 :: run target env (step target env d op).2 ops

/-! ## The cursor -/

/-- A directory that does not change, and the hashes of its entries. -/
structure Listing where
  entries : List Entry
  hash : UInt64
  hashAt : List UInt8 → UInt64

/-- The host and the memory without errors. -/
def Listing.env (L : Listing) (empty : Nat → Nat) (joined : Nat → Bool) : Env where
  handle := .ok ()
  readDirectory := .ok ()
  readDirectoryEntry pos := .ok L.entries[pos]?
  result := .ok ()
  metadataHash := .ok L.hash
  metadataHashAt name := .ok (L.hashAt name)
  alloc _ := true
  empty := empty
  joined := joined

/-- The elements of the directory: `.`, `..` and the entries. -/
def Listing.elements (L : Listing) : List Dirent :=
  ⟨L.hash, DT_DIR, [0x2E]⟩ :: ⟨0, DT_DIR, [0x2E, 0x2E]⟩ ::
    L.entries.map fun e => ⟨L.hashAt e.name, dirEntryTypeToDType e.type, e.name⟩

/-- A call on the abstract cursor, which is only a place. -/
def Listing.move (L : Listing) (i : Nat) : Op → Output × Nat
  | .readdir => (.entry (.ok L.elements[i]?), if i < L.elements.length then i + 1 else i)
  | .telldir => (.place i, i)
  | .rewinddir => (.unit, 0)
  | .seekdir loc => (.unit, loc)

def Listing.moves (L : Listing) : Nat → List Op → List Output
  | _, [] => []
  | i, op :: ops => (L.move i op).1 :: L.moves (L.move i op).2 ops

/-! ## Refinement -/

/-- Where the stream is, in terms of the offset. -/
structure Inv (target : Target) (L : Listing) (d : Dir) : Prop where
  le : d.offset ≤ L.entries.length + 2
  stream : d.stream = none ∧ d.offset = 0 ∧ d.streamDone = false ∨ d.stream = some (d.offset - 2)
  done : d.streamDone = true → d.offset = L.entries.length + 2
  /-- Only wasip3 has the flag. -/
  flag : d.streamDone = true → target = .wasip3

theorem Listing.length_elements (L : Listing) : L.elements.length = L.entries.length + 2 := by
  simp [elements]

theorem Listing.getElem?_elements (L : Listing) (pos : Nat) :
    L.elements[pos + 2]? = L.entries[pos]?.map fun e =>
      ⟨L.hashAt e.name, dirEntryTypeToDType e.type, e.name⟩ := by
  simp [elements]

variable {target : Target} {L : Listing} {d : Dir} (empty : Nat → Nat) (joined : Nat → Bool)

/-- The fields that the place depends on are the same. -/
structure Same (d d' : Dir) : Prop where
  stream : d'.stream = d.stream
  streamDone : d'.streamDone = d.streamDone
  skip : d'.skip = d.skip
  offset : d'.offset = d.offset

theorem grow_env (L : Listing) (empty : Nat → Nat) (joined : Nat → Bool) (d : Dir) (len : Nat) :
    ∃ d', grow (L.env empty joined) d len = some d' ∧ Same d d' := by
  unfold grow
  simp only
  split
  · exact ⟨_, if_pos rfl, rfl, rfl, rfl, rfl⟩
  · exact ⟨d, rfl, rfl, rfl, rfl, rfl⟩

/-- The stream is open before an entry is read. -/
theorem ensure_env (h : Inv target L d) :
    ∃ d', ensureHasDirectoryStream (L.env empty joined) d = .ok d' ∧ Inv target L d' ∧
      d'.stream = some (d.offset - 2) ∧ d'.offset = d.offset ∧ d'.skip = d.skip := by
  rcases h.stream with ⟨hnone, hoffset, hdone⟩ | hsome
  · refine ⟨{ d with stream := some 0, future := true }, ?_, ⟨h.le, ?_, h.done, h.flag⟩, ?_, rfl, rfl⟩
    · simp only [ensureHasDirectoryStream, Listing.env, hnone]
      rfl
    · exact .inr (by rw [hoffset])
    · rw [hoffset]
  · refine ⟨d, ?_, h, hsome, rfl, rfl⟩
    simp only [ensureHasDirectoryStream, Listing.env, hsome]
    rfl

/-- The loop of wasip3 reads the entry at its place, or closes the stream. -/
theorem readLoop_env (pos n : Nat) (d : Dir) :
    ∃ reads future last, readLoop (L.env empty joined) pos n d = (.ok L.entries[pos]?,
        { d with
          stream := if pos < L.entries.length then some (pos + 1) else d.stream
          streamDone := last, future := future, reads := reads }) ∧
      (last = true → L.entries.length ≤ pos + 1) := by
  induction n generalizing d with
  | succ n ih => exact ih _
  | zero =>
    cases he : L.entries[pos]? with
    | some e =>
      obtain ⟨hlt, -⟩ := List.getElem?_eq_some_iff.mp he
      rw [if_pos hlt]
      cases hnext : L.entries[pos + 1]? with
      | some _ =>
        refine ⟨d.reads + 1, d.future, false, ?_, nofun⟩
        simp only [readLoop, Listing.env, he, hnext]
      | none =>
        refine ⟨d.reads + 1, d.future, joined (d.reads + 1), ?_, fun _ => List.getElem?_eq_none_iff.mp hnext⟩
        simp only [readLoop, Listing.env, he, hnext]
    | none =>
      have hle := List.getElem?_eq_none_iff.mp he
      rw [if_neg (by omega)]
      refine ⟨d.reads + 1, false, true, ?_, fun _ => by omega⟩
      simp only [readLoop, Listing.env, he]
      cases hfuture : d.future with
      | true => rfl
      | false => rfl

/-- The next entry of the stream is the one at its place. -/
theorem nextEntry_env (h : Inv target L d) (htwo : 2 ≤ d.offset)
    (hstream : d.stream = some (d.offset - 2)) :
    ∃ d', nextEntry target (L.env empty joined) (d.offset - 2) d =
        (.ok L.entries[d.offset - 2]?, d') ∧
      d'.offset = d.offset ∧ d'.skip = d.skip ∧
      d'.stream = some (if d.offset - 2 < L.entries.length then d.offset - 1 else d.offset - 2) ∧
      (d'.streamDone = true → L.entries.length + 1 ≤ d.offset ∧ target = .wasip3) := by
  have hdone : d.streamDone = true → L.entries.length + 1 ≤ d.offset ∧ target = .wasip3 :=
    fun hd => ⟨by have := h.done hd; omega, h.flag hd⟩
  have hsucc : d.offset - 2 + 1 = d.offset - 1 := by omega
  cases target with
  | wasip2 =>
    simp only [nextEntry, nextEntry2, Listing.env]
    cases he : L.entries[d.offset - 2]? with
    | some e =>
      obtain ⟨hlt, -⟩ := List.getElem?_eq_some_iff.mp he
      exact ⟨_, rfl, rfl, rfl, by rw [if_pos hlt, hsucc], hdone⟩
    | none =>
      have hle := List.getElem?_eq_none_iff.mp he
      exact ⟨d, rfl, rfl, rfl, by rw [if_neg (by omega), hstream], hdone⟩
  | wasip3 =>
    simp only [nextEntry, nextEntry3]
    split
    case isTrue hd =>
      have hoffset := h.done hd
      have hnone : L.entries[d.offset - 2]? = none := List.getElem?_eq_none_iff.mpr (by omega)
      exact ⟨d, by rw [hnone], rfl, rfl, by rw [if_neg (by omega), hstream],
        fun hd => ⟨(hdone hd).1, trivial⟩⟩
    case isFalse =>
      obtain ⟨reads, future, last, heq, hlast⟩ := readLoop_env (L := L) empty joined
        (d.offset - 2) ((L.env empty joined).empty d.reads) d
      refine ⟨_, heq, rfl, rfl, ?_, fun hl => ?_⟩
      · simp only [hstream, hsucc]
        split <;> rfl
      · have := hlast hl
        exact ⟨by omega, trivial⟩

/-- The place behind one of the entries that the library makes up. -/
theorem Inv.synthetic (h : Inv target L d) (hlt : d.offset < 2) (hstream : d.stream = some (d.offset - 2))
    {d' : Dir} (hsame : Same { d with offset := d.offset + 1 } d') : Inv target L d' := by
  have hoffset : d'.offset = d.offset + 1 := hsame.offset
  refine ⟨by omega, .inr ?_, fun hd => ?_, fun hd => h.flag (hsame.streamDone ▸ hd)⟩
  · rw [hsame.stream, hoffset]
    simp only [hstream]
    congr 1
    omega
  · have := h.done (hsame.streamDone ▸ hd)
    omega

/-- `readdir_next` yields the element at the offset, and moves on unless it is
at the end. -/
theorem readdirNext_env (h : Inv target L d) :
    ∃ d', readdirNext target (L.env empty joined) d = (.ok L.elements[d.offset]?, d') ∧
      Inv target L d' ∧ d'.skip = d.skip ∧
      d'.offset = if d.offset < L.elements.length then d.offset + 1 else d.offset := by
  obtain ⟨d₁, hensure, h₁, hstream, hoffset, hskip⟩ := ensure_env empty joined h
  unfold readdirNext
  rw [hensure, ← hoffset, ← hskip, L.length_elements]
  rw [← hoffset] at hstream
  simp only
  by_cases hzero : d₁.offset = 0
  · obtain ⟨d₂, hgrow, hsame⟩ := grow_env L empty joined { d₁ with offset := d₁.offset + 1 } 1
    rw [if_pos hzero, hgrow, if_pos (by omega)]
    refine ⟨d₂, ?_, h₁.synthetic (by omega) hstream hsame, hsame.skip, hsame.offset⟩
    rw [hzero]
    rfl
  by_cases hone : d₁.offset = 1
  · obtain ⟨d₂, hgrow, hsame⟩ := grow_env L empty joined { d₁ with offset := d₁.offset + 1 } 2
    rw [if_neg hzero, if_pos hone, hgrow, if_pos (by omega)]
    refine ⟨d₂, ?_, h₁.synthetic (by omega) hstream hsame, hsame.skip, hsame.offset⟩
    rw [hone]
    rfl
  · obtain ⟨d₂, hnext, hoffset₂, hskip₂, hstream₂, hdone₂⟩ := nextEntry_env empty joined h₁ (by omega) hstream
    have helement : L.elements[d₁.offset]? = L.entries[d₁.offset - 2]?.map fun e =>
        ⟨L.hashAt e.name, dirEntryTypeToDType e.type, e.name⟩ := by
      rw [← L.getElem?_elements, Nat.sub_add_cancel (by omega)]
    rw [if_neg hzero, if_neg hone, hstream, Option.getD_some, hnext, helement]
    cases he : L.entries[d₁.offset - 2]? with
    | none =>
      have hle := List.getElem?_eq_none_iff.mp he
      have hle₁ := h₁.le
      rw [if_neg (by omega)] at hstream₂
      refine ⟨d₂, rfl, ⟨by omega, .inr (by rw [hstream₂, hoffset₂]), fun hd => ?_,
        fun hd => (hdone₂ hd).2⟩, hskip₂, ?_⟩
      · omega
      · rw [if_neg (by omega), hoffset₂]
    | some e =>
      obtain ⟨hlt, -⟩ := List.getElem?_eq_some_iff.mp he
      obtain ⟨d₃, hgrow, hsame⟩ := grow_env L empty joined d₂ e.name.length
      rw [if_pos hlt] at hstream₂
      have hoffset₃ := hsame.offset
      refine ⟨{ d₃ with offset := d₃.offset + 1 }, ?_, ⟨?_, .inr ?_, fun hd => ?_,
        fun hd => (hdone₂ (hsame.streamDone ▸ hd)).2⟩, ?_, ?_⟩
      · simp only [yieldEntry, hgrow, Option.map_some]
        rfl
      · simp only
        omega
      · simp only [hsame.stream, hstream₂, hoffset₃, hoffset₂]
        congr 1
      · have := (hdone₂ (hsame.streamDone ▸ hd)).1
        simp only
        omega
      · rw [← hskip₂]
        exact hsame.skip
      · rw [if_pos (by omega)]
        simp only
        omega

/-- The loop of `readdir` skips so many entries, or stops at the end. -/
theorem skipEntries_env (n : Nat) (h : Inv target L d) (hskip : d.skip = n) :
    ∃ d', skipEntries target (L.env empty joined) n (readdirNext target (L.env empty joined) d) =
        (.ok L.elements[d.offset + n]?, d') ∧ Inv target L d' ∧
      telldir d' = if d.offset + n < L.elements.length then d.offset + n + 1 else d.offset + n := by
  induction n generalizing d with
  | zero =>
    obtain ⟨d₁, hnext, h₁, hskip₁, hoffset₁⟩ := readdirNext_env empty joined h
    refine ⟨d₁, by rw [hnext]; rfl, h₁, ?_⟩
    rw [telldir, hskip₁, hskip, hoffset₁]
    rfl
  | succ n ih =>
    obtain ⟨d₁, hnext, h₁, hskip₁, hoffset₁⟩ := readdirNext_env empty joined h
    rw [hnext]
    by_cases hlt : d.offset < L.elements.length
    · rw [List.getElem?_eq_getElem hlt, skipEntries]
      rw [if_pos hlt] at hoffset₁
      obtain ⟨d₂, hrest, h₂, htell⟩ := ih (d := { d₁ with skip := d₁.skip - 1 })
        ⟨h₁.le, h₁.stream, h₁.done, h₁.flag⟩ (by simp only; omega)
      have hsum : d₁.offset + n = d.offset + (n + 1) := by omega
      simp only [hsum] at hrest htell
      exact ⟨d₂, hrest, h₂, htell⟩
    · rw [if_neg hlt] at hoffset₁
      have hnone : ∀ k, L.elements[d.offset + k]? = none := fun k =>
        List.getElem?_eq_none_iff.mpr (by omega)
      refine ⟨d₁, ?_, h₁, ?_⟩
      · rw [hnone, show L.elements[d.offset]? = none from hnone 0]
        rfl
      · rw [if_neg (by omega), telldir, hskip₁, hskip, hoffset₁]

/-- A stream that is closed starts again. -/
theorem Inv.close (h : Inv target L d) (skip : Nat) :
    Inv target L { direntCloseStreams target d with skip := skip, offset := 0 } := by
  have hdone : (direntCloseStreams target d).streamDone = false := by
    cases target with
    | wasip2 =>
      cases hd : d.streamDone with
      | true => exact absurd (h.flag hd) (by decide)
      | false => exact hd
    | wasip3 =>
      rcases h.stream with ⟨hnone, -, hdone⟩ | hsome
      · simp [direntCloseStreams, hnone, hdone]
      · simp [direntCloseStreams, hsome]
  have hstream : (direntCloseStreams target d).stream = none := by cases target <;> rfl
  refine ⟨Nat.zero_le _, .inl ⟨hstream, rfl, hdone⟩, fun hd => ?_, fun hd => ?_⟩
  · rw [show _ = false from hdone] at hd
    cases hd
  · rw [show _ = false from hdone] at hd
    cases hd

/-- A call does what it does on the cursor. -/
theorem step_refines (h : Inv target L d) (op : Op) :
    (step target (L.env empty joined) d op).1 = (L.move (telldir d) op).1 ∧
      telldir (step target (L.env empty joined) d op).2 = (L.move (telldir d) op).2 ∧
      Inv target L (step target (L.env empty joined) d op).2 := by
  cases op with
  | readdir =>
    obtain ⟨d', hread, hinv, htell⟩ := skipEntries_env empty joined
      d.skip h rfl
    simp only [step, readdir, hread, Listing.move]
    exact ⟨rfl, htell, hinv⟩
  | telldir => exact ⟨rfl, rfl, h⟩
  | rewinddir =>
    exact ⟨rfl, rfl, h.close 0⟩
  | seekdir loc =>
    exact ⟨rfl, Nat.zero_add loc, h.close loc⟩

/-- Whatever is called, and whatever the host does when it is read, a
directory stream of wasip2 and wasip3 behaves as a cursor that starts at
`.`. -/
theorem run_refines (target : Target) (L : Listing) (empty : Nat → Nat) (joined : Nat → Bool)
    (ops : List Op) :
    ∃ d, fdopendir (L.env empty joined) = .ok d ∧
      run target (L.env empty joined) d ops = L.moves 0 ops := by
  have hrun : ∀ (ops : List Op) (d : Dir), Inv target L d →
      run target (L.env empty joined) d ops = L.moves (telldir d) ops := by
    intro ops
    induction ops with
    | nil => exact fun _ _ => rfl
    | cons op ops ih =>
      intro d h
      obtain ⟨hout, htell, hinv⟩ := step_refines empty joined h op
      rw [run, Listing.moves, hout, ih _ hinv, htell]
  exact ⟨⟨some 0, true, false, 0, 0, 1, 0⟩, rfl,
    hrun ops _ ⟨Nat.zero_le _, .inr rfl, nofun, nofun⟩⟩

end WasiLibc.Directory.Cursor

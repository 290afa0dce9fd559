import WasiLibc.Errno
import WasiLibc.Waitable

/-!
# WasiLibc.Mman.Mmap

The emulation of `mmap`: memory from `malloc`, into which the file is read with
`pread`, as often as it takes.  The loop stops at the end of the file, and
nothing is written behind it.

`mmap_faithful_iff`: what is mapped is the file followed by zeros exactly when
`malloc` happens to return zeros there, or there is nothing behind the file.
-/

namespace WasiLibc.Mman

/-! ## `pread` -/

/-- What the host makes of a `pread`: an error, or at most so many bytes.  At
least one byte is read, unless the file has ended. -/
inductive Reply where
  | fails (e : Errno)
  | reads (most : Nat)
  deriving DecidableEq, Repr

/-- `pread`. -/
def pread (file : List UInt8) (length offset : Nat) : Reply → Except Errno (List UInt8)
  | .fails e => .error e
  | .reads most => .ok ((file.drop offset).take (min (max 1 most) length))

/-! ## `mmap` -/

def MAP_SHARED : BitVec 32 := 0x01
def MAP_PRIVATE : BitVec 32 := 0x02
def MAP_SHARED_VALIDATE : BitVec 32 := 0x03
def MAP_FIXED : BitVec 32 := 0x10
def MAP_ANON : BitVec 32 := 0x20
def MAP_GROWSDOWN : BitVec 32 := 0x0100
def MAP_NORESERVE : BitVec 32 := 0x4000
def MAP_HUGETLB : BitVec 32 := 0x40000
def MAP_FIXED_NOREPLACE : BitVec 32 := 0x100000

def PROT_NONE : BitVec 32 := 0
def PROT_READ : BitVec 32 := 1
def PROT_EXEC : BitVec 32 := 4

/-- The arguments of `mmap`; the descriptor is known by its file. -/
structure Args where
  length : Nat
  prot : BitVec 32
  flags : BitVec 32
  offset : Nat
  deriving DecidableEq, Repr

/-- `struct map`, and the memory behind it. -/
structure Mapping where
  prot : BitVec 32
  flags : BitVec 32
  offset : Nat
  length : Nat
  body : List UInt8
  deriving DecidableEq, Repr

def sizeofMap : Nat := 24

/-- `SIZE_MAX`. -/
def sizeMax : Nat := 2 ^ 32 - 1

inductive HeapEvent where
  | malloc
  | free
  deriving DecidableEq, Repr

/-- The unsupported flags. -/
def badFlags (flags : BitVec 32) : Bool :=
  flags &&& (MAP_PRIVATE ||| MAP_SHARED) = 0 ||
  flags &&& MAP_FIXED ≠ 0 ||
  flags &&& MAP_SHARED_VALIDATE = MAP_SHARED_VALIDATE ||
  flags &&& MAP_NORESERVE ≠ 0 ||
  flags &&& MAP_GROWSDOWN ≠ 0 ||
  flags &&& MAP_HUGETLB ≠ 0 ||
  flags &&& MAP_FIXED_NOREPLACE ≠ 0

/-- The unsupported protections. -/
def badProt (prot : BitVec 32) : Bool := prot = PROT_NONE || prot &&& PROT_EXEC ≠ 0

/-- Bytes are written to the memory. -/
def store (body : List UInt8) (pos : Nat) (bytes : List UInt8) : List UInt8 :=
  body.take pos ++ bytes ++ body.drop (pos + bytes.length)

/-- The loop over `pread`: `pos` is how far `body` has moved. -/
def fill (file : List UInt8) (replies : List Reply) (body : List UInt8) (length pos offset : Nat) :
    Except Fault (Except Errno (List UInt8)) :=
  if length = 0 then .ok (.ok body)
  else
    match replies with
    | [] => .error .host
    | reply :: replies =>
      match pread file length offset reply with
      | .error e => if e = .EINTR then fill file replies body length pos offset else .ok (.error e)
      | .ok bytes =>
        if bytes = [] then .ok (.ok body)
        else
          fill file replies (store body pos bytes) (length - bytes.length) (pos + bytes.length)
            (offset + bytes.length)

/-- `mmap`: its result, and what it does with the heap.  `malloc` is the memory
that `malloc` returns. -/
def mmap (file : List UInt8) (args : Args) (malloc : Option (Nat → UInt8)) (replies : List Reply) :
    Except Fault (Except Errno Mapping × List HeapEvent) :=
  if badFlags args.flags then .ok (.error .EINVAL, [])
  else if badProt args.prot then .ok (.error .EINVAL, [])
  else if args.length = 0 then .ok (.error .EINVAL, [])
  else if args.length + sizeofMap > sizeMax then .ok (.error .ENOMEM, [])
  else
    match malloc with
    | none => .ok (.error .ENOMEM, [])
    | some memory =>
      let map := Mapping.mk args.prot args.flags args.offset args.length
      if args.flags &&& MAP_ANON = 0 then
        match fill file replies ((List.range args.length).map memory) args.length 0 args.offset with
        | .error fault => .error fault
        | .ok (.error e) => .ok (.error e, [.malloc, .free])
        | .ok (.ok body) => .ok (.ok (map body), [.malloc])
      else .ok (.ok (map (List.replicate args.length 0)), [.malloc])

/-- `munmap`. -/
def munmap (map : Mapping) (length : Nat) : Except Errno Unit × List HeapEvent :=
  if map.length ≠ length then (.error .EINVAL, []) else (.ok (), [.free])

/-! ## The loop -/

section

variable {file memory body : List UInt8} {replies : List Reply} {length pos start : Nat}

/-- One `pread` goes on where the last one ended. -/
theorem store_take_drop {src : List UInt8} (hpos : pos ≤ src.length) (k : Nat) :
    store (src.take pos ++ memory.drop pos) pos ((src.drop pos).take k) =
      src.take (pos + ((src.drop pos).take k).length) ++
        memory.drop (pos + ((src.drop pos).take k).length) := by
  have hlen : (src.take pos).length = pos := by
    rw [List.length_take]
    omega
  have htake : (src.drop pos).take ((src.drop pos).take k).length = (src.drop pos).take k :=
    (List.prefix_iff_eq_take.mp ( List.take_prefix k _)).symm
  unfold store
  rw [List.take_left' hlen, List.take_add, htake, ← List.drop_drop, List.drop_left' hlen,
    List.drop_drop]

/-- Nothing is read at the end of the file only. -/
theorem drop_eq_nil_of_take {most : Nat} (hlen : length ≠ 0)
    (h : (file.drop (start + pos)).take (min (max 1 most) length) = []) :
    (file.drop start).length ≤ pos := by
  have hmost : min (max 1 most) length ≠ 0 := by omega
  have hnil := (List.take_eq_nil_iff.mp h).resolve_left hmost
  rw [List.drop_eq_nil_iff] at hnil
  rw [List.length_drop]
  omega

/-- **The loop reads the file from the offset on, up to its end**, and leaves
what is behind it. -/
theorem fill_eq (hpos : pos ≤ (file.drop start).length) (hlen : pos + length = memory.length)
    (h : fill file replies ((file.drop start).take pos ++ memory.drop pos) length pos (start + pos) =
      .ok (.ok body)) :
    body = (file.drop start).take memory.length ++
      memory.drop (min memory.length (file.drop start).length) := by
  induction replies generalizing length pos with
  | nil =>
    unfold fill at h
    split at h
    case isTrue hzero =>
      obtain rfl : pos = memory.length := by omega
      cases h
      rw [Nat.min_eq_left hpos]
    case isFalse hzero => cases h
  | cons reply replies ih =>
    unfold fill at h
    split at h
    case isTrue hzero =>
      obtain rfl : pos = memory.length := by omega
      cases h
      rw [Nat.min_eq_left hpos]
    case isFalse hzero =>
      cases reply with
      | fails e =>
        simp only [pread] at h
        split at h
        · exact ih hpos hlen h
        · cases h
      | reads most =>
        simp only [pread] at h
        split at h
        case isTrue hnil =>
          -- the file has ended
          have hend := drop_eq_nil_of_take hzero hnil
          obtain rfl : pos = (file.drop start).length := by omega
          cases h
          rw [Nat.min_eq_right (by omega), List.take_length, List.take_of_length_le (by omega)]
        case isFalse hne =>
          rw [← List.drop_drop, store_take_drop hpos, Nat.add_assoc] at h
          refine ih ?_ ?_ h
          · simp only [List.length_take, List.length_drop] at hpos ⊢
            omega
          · simp only [List.length_take]
            omega

/-- The loop ends, however short the reads are, when there are enough of them. -/
theorem fill_ends (hreads : ∀ r ∈ replies, ∃ most, r = .reads most)
    (hlen : length ≤ replies.length) (offset : Nat) :
    ∃ body', fill file replies body length pos offset = .ok (.ok body') := by
  induction replies generalizing body length pos offset with
  | nil =>
    obtain rfl : length = 0 := by simpa using hlen
    exact ⟨body, by rw [fill]; rfl⟩
  | cons reply replies ih =>
    obtain ⟨most, rfl⟩ := hreads reply List.mem_cons_self
    have hrest : ∀ r ∈ replies, ∃ most, r = Reply.reads most :=
      fun r hr => hreads r (List.mem_cons_of_mem _ hr)
    unfold fill
    by_cases hzero : length = 0
    · exact ⟨body, if_pos hzero⟩
    · rw [if_neg hzero]
      simp only [pread]
      split
      case isTrue hnil => exact ⟨body, rfl⟩
      case isFalse hne =>
        refine ih hrest ?_ _
        have hsome := List.length_pos_iff.mpr hne
        rw [List.length_cons] at hlen
        omega

end

/-! ## Whole calls -/

/-- The checks of `mmap`. -/
structure Args.Accepted (args : Args) : Prop where
  flags : badFlags args.flags = false
  prot : badProt args.prot = false
  length : args.length ≠ 0
  fits : args.length + sizeofMap ≤ sizeMax

/-- What a mapping of the file is to hold: the file from the offset on, and zeros
behind its end. -/
def Args.contents (args : Args) (file : List UInt8) : List UInt8 :=
  (file.drop args.offset).take args.length ++
    List.replicate (args.length - (file.length - args.offset)) 0

variable {file : List UInt8} {args : Args} {memory : Nat → UInt8} {replies : List Reply}

theorem mmap_of_not_accepted (h : ¬ args.Accepted) (malloc : Option (Nat → UInt8)) :
    ∃ e, mmap file args malloc replies = .ok (.error e, []) := by
  unfold mmap
  split
  case isTrue => exact ⟨_, rfl⟩
  case isFalse hflags =>
    split
    case isTrue => exact ⟨_, rfl⟩
    case isFalse hprot =>
      split
      case isTrue => exact ⟨_, rfl⟩
      case isFalse hlength =>
        split
        case isTrue => exact ⟨_, rfl⟩
        case isFalse hfits =>
          exact absurd ⟨by simpa using hflags, by simpa using hprot, hlength, Nat.not_lt.mp hfits⟩ h

/-- A call that is accepted. -/
theorem mmap_of_accepted (h : args.Accepted) (hfile : args.flags &&& MAP_ANON = 0) :
    mmap file args (some memory) replies =
      match fill file replies ((List.range args.length).map memory) args.length 0 args.offset with
      | .error fault => .error fault
      | .ok (.error e) => .ok (.error e, [.malloc, .free])
      | .ok (.ok body) => .ok (.ok ⟨args.prot, args.flags, args.offset, args.length, body⟩, [.malloc])
    := by
  unfold mmap
  rw [if_neg (by simp [h.flags]), if_neg (by simp [h.prot]), if_neg h.length,
    if_neg (Nat.not_lt.mpr h.fits)]
  exact if_pos hfile

/-- What is mapped is the file, and what `malloc` has left behind it. -/
theorem body_of_mmap {m : Mapping} {log : List HeapEvent} (hfile : args.flags &&& MAP_ANON = 0)
    (h : mmap file args (some memory) replies = .ok (.ok m, log)) :
    m.body = (file.drop args.offset).take args.length ++
      ((List.range args.length).map memory).drop (min args.length (file.length - args.offset)) := by
  by_cases haccepted : args.Accepted
  · rw [mmap_of_accepted haccepted hfile] at h
    split at h
    case h_1 => cases h
    case h_2 => cases h
    case h_3 body hbody =>
      cases h
      have hlen : 0 + args.length = ((List.range args.length).map memory).length := by simp
      have hstart : fill file replies ((file.drop args.offset).take 0 ++
          ((List.range args.length).map memory).drop 0) args.length 0 (args.offset + 0) =
          .ok (.ok body) := hbody
      simpa using fill_eq (Nat.zero_le _) hlen hstart
  · obtain ⟨e, he⟩ := mmap_of_not_accepted haccepted (some memory)
    rw [he] at h
    cases h

/-- What is behind the file is zero exactly when `malloc` has left zeros there. -/
theorem drop_map_range_eq_replicate {n k : Nat} (hk : k ≤ n) :
    ((List.range n).map memory).drop k = List.replicate (n - k) 0 ↔
      ∀ i, k ≤ i → i < n → memory i = 0 := by
  rw [List.eq_replicate_iff]
  constructor
  · rintro ⟨-, hzero⟩ i hki hin
    refine hzero _ (List.mem_iff_getElem.mpr ⟨i - k, by simp; omega, ?_⟩)
    simp [Nat.add_sub_cancel' hki]
  · intro hzero
    refine ⟨by simp, fun b hb => ?_⟩
    obtain ⟨j, hj, rfl⟩ := List.mem_iff_getElem.mp hb
    simp only [List.length_drop, List.length_map, List.length_range] at hj
    simpa using hzero (k + j) (by omega) (by omega)

theorem eq_contents_iff :
    (file.drop args.offset).take args.length ++
        ((List.range args.length).map memory).drop (min args.length (file.length - args.offset)) =
      args.contents file ↔
      ∀ i, file.length - args.offset ≤ i → i < args.length → memory i = 0 := by
  have hzeros : args.length - (file.length - args.offset) =
      args.length - min args.length (file.length - args.offset) := by omega
  rw [Args.contents, List.append_right_inj, hzeros,
    drop_map_range_eq_replicate (Nat.min_le_left _ _)]
  constructor
  · intro h i hi hin
    exact h i (by omega) hin
  · intro h i hi hin
    exact h i (by omega) hin

/-- However the reads go, a mapping that succeeds holds the file and zeros, and
one that fails leaves no allocation behind. -/
def Faithful (file : List UInt8) (args : Args) (memory : Nat → UInt8) : Prop :=
  ∀ replies,
    (∀ m log, mmap file args (some memory) replies = .ok (.ok m, log) →
      m.body = args.contents file) ∧
    ∀ malloc e log, mmap file args malloc replies = .ok (.error e, log) →
      log.count .malloc = log.count .free

theorem count_of_mmap_error (hfile : args.flags &&& MAP_ANON = 0) {malloc : Option (Nat → UInt8)}
    {e : Errno} {log : List HeapEvent} (h : mmap file args malloc replies = .ok (.error e, log)) :
    log.count .malloc = log.count .free := by
  by_cases haccepted : args.Accepted
  · cases malloc with
    | none =>
      unfold mmap at h
      rw [if_neg (by simp [haccepted.flags]), if_neg (by simp [haccepted.prot]),
        if_neg haccepted.length, if_neg (Nat.not_lt.mpr haccepted.fits)] at h
      cases h
      rfl
    | some memory =>
      rw [mmap_of_accepted haccepted hfile] at h
      split at h
      case h_1 => cases h
      case h_2 =>
        cases h
        rfl
      case h_3 => cases h
  · obtain ⟨e', he⟩ := mmap_of_not_accepted haccepted malloc
    rw [he] at h
    cases h
    rfl

/-- **A mapping holds the file and zeros behind it, if and only if the memory
that `malloc` returns holds zeros behind the file, or there is nothing behind
it.**  No failure leaves an allocation behind. -/
theorem mmap_faithful_iff (file : List UInt8) (args : Args) (memory : Nat → UInt8)
    (hfile : args.flags &&& MAP_ANON = 0) :
    Faithful file args memory ↔
      (args.Accepted → ∀ i, file.length - args.offset ≤ i → i < args.length → memory i = 0) := by
  constructor
  · intro hfaithful haccepted
    -- reads that are as long as can be
    have hends : ∃ body, fill file (List.replicate args.length (.reads args.length))
        ((List.range args.length).map memory) args.length 0 args.offset = .ok (.ok body) :=
      fill_ends (fun r hr => ⟨_, List.eq_of_mem_replicate hr⟩) (by simp) args.offset
    obtain ⟨body, hbody⟩ := hends
    have hmmap : mmap file args (some memory) (List.replicate args.length (.reads args.length)) = _ :=
      mmap_of_accepted haccepted hfile
    rw [hbody] at hmmap
    have hcontents := (hfaithful _).1 _ _ hmmap
    rw [body_of_mmap hfile hmmap] at hcontents
    exact eq_contents_iff.mp hcontents
  · intro hzero replies
    refine ⟨fun m log h => ?_, fun malloc e log h => count_of_mmap_error hfile h⟩
    rw [body_of_mmap hfile h]
    refine eq_contents_iff.mpr (hzero ?_)
    by_contra hnot
    obtain ⟨e, he⟩ := mmap_of_not_accepted hnot (some memory)
    rw [he] at h
    cases h

/-- A file of one byte, of which two are mapped, in memory that `malloc` has left
as it was. -/
theorem mmap_leaves_garbage :
    mmap [1] ⟨2, PROT_READ, MAP_PRIVATE, 0⟩ (some fun _ => 0xA5) [.reads 2, .reads 1] =
      .ok (.ok ⟨PROT_READ, MAP_PRIVATE, 0, 2, [1, 0xA5]⟩, [.malloc]) := by
  decide

/-- All of a file is mapped. -/
theorem mmap_faithful_whole : Faithful [1, 2] ⟨2, PROT_READ, MAP_PRIVATE, 0⟩ fun _ => 0xA5 :=
  (mmap_faithful_iff [1, 2] ⟨2, PROT_READ, MAP_PRIVATE, 0⟩ (fun _ => 0xA5) (by decide)).mpr
    fun _ i hi hlt => absurd hlt (Nat.not_lt.mpr hi)

end WasiLibc.Mman

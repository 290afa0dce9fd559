import WasiLibc.Directory.Buffer
import WasiLibc.Lib.Loop

/-!
# WasiLibc.Directory.Skips

The entries that `readdir` of wasip1 does not return.

An entry without a name, one with a NUL in its name and one that has
disappeared are passed over in the buffer, but the cookie stays the one of the
last entry that was returned.  The next fetch brings them again.
-/

namespace WasiLibc.Directory.Buffer

open Errno

/-! ## Calls and `errno` -/

/-- Does the turn look up the inode of an entry that has disappeared? -/
def disappeared (env : Env) (d : Dir) : Bool :=
  let left := d.bufferUsed - d.bufferProcessed
  let entry := Header.ofBytes (d.buffer.drop d.bufferProcessed)
  let namlen := entry.dNamlen.toNat
  let name := (d.buffer.drop (d.bufferProcessed + Header.size)).take namlen
  decide (Header.size + namlen ≤ left ∧ namlen ≠ 0 ∧ 0 ∉ name) &&
    (grow env d.direntSize (nameOffset + name.length + 1)).isSome &&
    decide (entry.dIno = 0 ∧ name ≠ [0x2E, 0x2E]) &&
    match env.fstatat name with
    | .error ENOENT => true
    | _ => false

/-- A turn of the loop in `readdir`, with `errno`.  A lookup that fails sets
it, also when the loop goes on. -/
def turnErrno (env : Env) (s : Option Errno × Dir) :
    (Except Errno (Option Dirent) × Option Errno × Dir) ⊕ (Option Errno × Dir) :=
  match turn env s.2 with
  | .done (.error e) d => .inl (.error e, some e, d)
  | .done (.ok r) d => .inl (.ok r, s.1, d)
  | .again d => .inr (if disappeared env s.2 then some ENOENT else s.1, d)

/-- `readdir` is this loop. -/
theorem readdir_eq_run (env : Env) (fuel : Nat) (errno : Option Errno) (d : Dir) :
    readdir env fuel d =
      (Loop.run (turnErrno env) fuel (errno, d)).map fun r => (r.1, r.2.2) := by
  induction fuel generalizing errno d with
  | zero => rfl
  | succ fuel ih =>
    cases hturn : turn env d with
    | again d' =>
      have hnext : turnErrno env (errno, d) =
          .inr (if disappeared env d then some ENOENT else errno, d') := by
        simp only [turnErrno, hturn]
      rw [readdir_again hturn, Loop.run_next hnext, ← ih]
    | done r d' =>
      cases r with
      | error e =>
        have hstop : turnErrno env (errno, d) = .inl (.error e, some e, d') := by
          simp only [turnErrno, hturn]
        rw [readdir, hturn, Loop.run_stop hstop]
        rfl
      | ok r =>
        have hstop : turnErrno env (errno, d) = .inl (.ok r, errno, d') := by
          simp only [turnErrno, hturn]
        rw [readdir, hturn, Loop.run_stop hstop]
        rfl

/-- A call returns. -/
def Returns (env : Env) (d : Dir) (r : Except Errno (Option Dirent)) (errno : Option Errno)
    (d' : Dir) : Prop :=
  Loop.Ends (turnErrno env) (none, d) (r, errno, d')

/-! ## A directory with any entries -/

/-- An entry as a host may serialise it. -/
structure RawEntry where
  next : UInt64
  ino : UInt64
  type : UInt8
  name : List UInt8
  fits : name.length < 2 ^ 32

def RawEntry.header (e : RawEntry) : Header := ⟨e.next, e.ino, UInt32.ofNat e.name.length, e.type⟩

def RawEntry.bytes (e : RawEntry) : List UInt8 := e.header.bytes ++ e.name

def RawEntry.size (e : RawEntry) : Nat := Header.size + e.name.length

def rawBytes (es : List RawEntry) : List UInt8 := es.flatMap RawEntry.bytes

def total (es : List RawEntry) : Nat := (es.map RawEntry.size).sum

/-- The entries of a directory, whose cookies tell the places between them
apart. -/
structure RawListing where
  entries : List RawEntry
  distinct : (0 :: entries.map RawEntry.next).Nodup

/-- The entries behind a cookie. -/
def RawListing.after (L : RawListing) (cookie : UInt64) : List RawEntry :=
  if cookie = 0 then L.entries
  else (L.entries.dropWhile fun e => decide (e.next ≠ cookie)).drop 1

/-- A host that serves the listing, where `stat` has no answer for a file that
has disappeared, and memory without end. -/
def RawListing.env (L : RawListing) (stat : List UInt8 → Option Stat) : Env where
  fdReaddir size cookie := .ok ((rawBytes (L.after cookie)).take size)
  fstatat name :=
    match stat name with
    | some s => .ok s
    | none => .error ENOENT
  alloc _ := true

/-- No name, or a name with a NUL in it. -/
def RawEntry.hollow (e : RawEntry) : Bool := decide (e.name = [] ∨ 0 ∈ e.name)

/-- The inode is unknown, so that it is looked up. -/
def RawEntry.lookedUp (e : RawEntry) : Bool := decide (e.ino = 0 ∧ e.name ≠ [0x2E, 0x2E])

/-- The inode is looked up, and the file has disappeared. -/
def RawEntry.gone (stat : List UInt8 → Option Stat) (e : RawEntry) : Bool :=
  !e.hollow && e.lookedUp && (stat e.name).isNone

/-- `readdir` does not return the entry. -/
def RawEntry.skipped (stat : List UInt8 → Option Stat) (e : RawEntry) : Bool :=
  e.hollow || e.gone stat

/-- What `readdir` returns for an entry that it does not skip. -/
def RawEntry.dirent (stat : List UInt8 → Option Stat) (e : RawEntry) : Dirent :=
  match e.lookedUp, stat e.name with
  | true, some s => ⟨s.ino, s.type, e.name⟩
  | _, _ => ⟨e.ino, e.type, e.name⟩

/-- The entries that `readdir` returns. -/
def survivors (stat : List UInt8 → Option Stat) (es : List RawEntry) : List RawEntry :=
  es.filter fun e => !e.skipped stat

section Lists

variable {L : RawListing} {e : RawEntry} {es rest : List RawEntry} {cookie : UInt64}

theorem RawEntry.length_bytes (e : RawEntry) : e.bytes.length = e.size := by
  rw [bytes, List.length_append, Header.length_bytes, size]

theorem RawEntry.dNamlen_toNat (e : RawEntry) : e.header.dNamlen.toNat = e.name.length := by
  rw [header, UInt32.toNat_ofNat', Nat.mod_eq_of_lt e.fits]

@[simp] theorem rawBytes_cons (e : RawEntry) (es : List RawEntry) :
    rawBytes (e :: es) = e.bytes ++ rawBytes es := by
  simp [rawBytes]

@[simp] theorem total_nil : total [] = 0 := rfl

@[simp] theorem total_cons (e : RawEntry) (es : List RawEntry) :
    total (e :: es) = e.size + total es := by
  simp [total]

@[simp] theorem total_append (es rest : List RawEntry) :
    total (es ++ rest) = total es + total rest := by
  simp [total]

theorem length_rawBytes (es : List RawEntry) : (rawBytes es).length = total es := by
  induction es with
  | nil => rfl
  | cons e es ih => rw [rawBytes_cons, List.length_append, ih, e.length_bytes, total_cons]

/-- What is behind a cookie is an end of the listing. -/
theorem RawListing.after_suffix (L : RawListing) (cookie : UInt64) :
    L.after cookie <:+ L.entries := by
  unfold RawListing.after
  split
  · exact List.suffix_refl _
  · exact (List.drop_suffix 1 _).trans (List.dropWhile_suffix _)

/-- The cookie of an entry names the place behind it. -/
theorem RawListing.after_next (h : e :: rest <:+ L.entries) : L.after e.next = rest := by
  obtain ⟨front, hentries⟩ := h
  have hdistinct := L.distinct
  rw [← hentries, List.map_append, List.map_cons, List.nodup_cons, List.nodup_append] at hdistinct
  obtain ⟨hzero, -, -, hdisjoint⟩ := hdistinct
  have hne : e.next ≠ 0 := by
    rintro h0
    simp [h0] at hzero
  have hfront : ∀ a ∈ front, decide (a.next ≠ e.next) = true := by
    intro a ha
    exact decide_eq_true (hdisjoint _ (List.mem_map_of_mem ha) _ (List.mem_cons_self))
  rw [RawListing.after, if_neg hne, ← hentries, List.dropWhile_append_of_pos hfront,
    List.dropWhile_cons_of_neg (by simp), List.drop_succ_cons, List.drop_zero]

end Lists

/-! ## Places of a scan -/

/-- The entries in `done` have been passed over since the last entry that was
returned, and the buffer goes on with `todo`, as far as it reaches. -/
structure Place (L : RawListing) (stat : List UInt8 → Option Stat) (done todo : List RawEntry)
    (d : Dir) : Prop where
  after : L.after d.cookie = done ++ todo
  skipped : ∀ e ∈ done, e.skipped stat = true
  size : defaultBufferSize ≤ d.bufferSize
  dirent : 0 < d.direntSize
  used : d.bufferUsed = d.buffer.length
  done_le : total done ≤ d.bufferProcessed
  le_used : d.bufferProcessed ≤ d.bufferUsed
  le_size : d.bufferProcessed ≤ d.bufferSize
  rest : d.buffer.drop d.bufferProcessed =
    (rawBytes todo).take (d.bufferSize - d.bufferProcessed)

/-- The buffer after a fetch. -/
def RawListing.fetch (L : RawListing) (d : Dir) : Dir :=
  let bytes := (rawBytes (L.after d.cookie)).take d.bufferSize
  { d with buffer := bytes, bufferUsed := bytes.length, bufferProcessed := 0 }

/-- The size of the dirent after an entry. -/
def RawEntry.room (e : RawEntry) (size : Nat) : Nat :=
  if e.hollow then size else growSize size (nameOffset + e.name.length + 1)

/-- The entry in the buffer is behind. -/
def Dir.pass (d : Dir) (e : RawEntry) : Dir :=
  { d with
    bufferProcessed := d.bufferProcessed + e.size
    direntSize := e.room d.direntSize }

variable {L : RawListing} {stat : List UInt8 → Option Stat} {done todo : List RawEntry}
  {e : RawEntry} {d : Dir} {errno : Option Errno}

theorem grow_raw (size target : Nat) : grow (L.env stat) size target = some (growSize size target) := by
  unfold grow
  split
  · exact if_pos rfl
  · rw [growSize, if_neg (by omega)]

theorem readEntries_raw (d : Dir) : readEntries (L.env stat) d = .again (L.fetch d) := rfl

theorem place_fetch (hsize : defaultBufferSize ≤ d.bufferSize) (hdirent : 0 < d.direntSize) :
    Place L stat [] (L.after d.cookie) (L.fetch d) := by
  refine ⟨rfl, fun _ h => (List.not_mem_nil h).elim, hsize, hdirent, rfl, Nat.le_refl _,
    Nat.zero_le _, Nat.zero_le _, ?_⟩
  simp [RawListing.fetch]

theorem RawEntry.room_pos (e : RawEntry) {size : Nat} (h : 0 < size) : 0 < e.room size := by
  unfold RawEntry.room
  split
  · exact h
  · exact Nat.lt_of_lt_of_le h (le_growSize h _).1

theorem Place.left (h : Place L stat done todo d) : d.bufferUsed - d.bufferProcessed =
    min (d.bufferSize - d.bufferProcessed) (total todo) := by
  have hlen := congrArg List.length h.rest
  rwa [List.length_drop, List.length_take, length_rawBytes, ← h.used] at hlen

theorem Place.header (h : Place L stat done (e :: todo) d)
    (hleft : Header.size ≤ d.bufferUsed - d.bufferProcessed) :
    Header.ofBytes (d.buffer.drop d.bufferProcessed) = e.header := by
  have hle : e.header.bytes.length ≤ d.bufferSize - d.bufferProcessed := by
    rw [Header.length_bytes]
    have := h.left
    omega
  rw [h.rest, rawBytes_cons, RawEntry.bytes, List.append_assoc, List.take_append,
    List.take_of_length_le hle, Header.ofBytes_bytes]

/-- The next entry is wholly in the buffer. -/
theorem Place.entry (h : Place L stat done (e :: todo) d)
    (hleft : e.size ≤ d.bufferUsed - d.bufferProcessed) :
    d.buffer.drop d.bufferProcessed = e.bytes ++
      (rawBytes todo).take (d.bufferSize - d.bufferProcessed - e.size) := by
  have hfill := h.left
  rw [h.rest, rawBytes_cons, List.take_append, e.length_bytes,
    List.take_of_length_le (by rw [e.length_bytes]; omega)]

theorem Place.name (h : Place L stat done (e :: todo) d)
    (hleft : e.size ≤ d.bufferUsed - d.bufferProcessed) :
    (d.buffer.drop (d.bufferProcessed + Header.size)).take e.name.length = e.name := by
  rw [← List.drop_drop, h.entry hleft, RawEntry.bytes, List.append_assoc,
    List.drop_left' e.header.length_bytes, List.take_left]

/-- The buffer behind an entry that is wholly in it. -/
theorem Place.rest_pass (h : Place L stat done (e :: todo) d)
    (hleft : e.size ≤ d.bufferUsed - d.bufferProcessed) :
    d.buffer.drop (d.bufferProcessed + e.size) =
      (rawBytes todo).take (d.bufferSize - (d.bufferProcessed + e.size)) := by
  rw [← List.drop_drop, h.entry hleft, List.drop_left' e.length_bytes, Nat.sub_sub]

/-- An entry is passed over. -/
theorem Place.pass (h : Place L stat done (e :: todo) d)
    (hleft : e.size ≤ d.bufferUsed - d.bufferProcessed) (hskip : e.skipped stat = true) :
    Place L stat (done ++ [e]) todo (d.pass e) := by
  have hfill := h.left
  have hused := h.le_used
  have hsize := h.le_size
  have hdone := h.done_le
  refine ⟨by rw [List.append_assoc]; exact h.after, ?_, h.size, e.room_pos h.dirent, h.used, ?_, ?_, ?_,
    h.rest_pass hleft⟩
  · intro e' he'
    rcases List.mem_append.mp he' with he' | he'
    · exact h.skipped e' he'
    · rw [List.mem_singleton.mp he']
      exact hskip
  · simp only [total_append, total_cons, total_nil, Dir.pass]
    omega
  · simp only [Dir.pass]
    omega
  · simp only [Dir.pass]
    omega

/-- An entry is returned. -/
theorem Place.take (h : Place L stat done (e :: todo) d)
    (hleft : e.size ≤ d.bufferUsed - d.bufferProcessed) :
    Place L stat [] todo { d.pass e with cookie := e.next } := by
  have hfill := h.left
  have hused := h.le_used
  have hsize := h.le_size
  have hsuffix : e :: todo <:+ L.entries :=
    (List.suffix_append done (e :: todo)).trans (h.after ▸ L.after_suffix d.cookie)
  refine ⟨L.after_next hsuffix, fun _ h => (List.not_mem_nil h).elim, h.size, e.room_pos h.dirent,
    h.used, Nat.zero_le _, ?_, ?_, h.rest_pass hleft⟩
  · simp only [Dir.pass]
    omega
  · simp only [Dir.pass]
    omega

/-! ## Turns of the loop -/

theorem turnErrno_again {env : Env} {d' : Dir} (h : turn env d = .again d')
    (hkeep : disappeared env d = false) : turnErrno env (errno, d) = .inr (errno, d') := by
  simp only [turnErrno, h, hkeep]
  rfl

theorem disappeared_short {env : Env}
    (h : d.bufferUsed - d.bufferProcessed < Header.size +
      (Header.ofBytes (d.buffer.drop d.bufferProcessed)).dNamlen.toNat) :
    disappeared env d = false := by
  unfold disappeared
  simp only
  rw [decide_eq_false (by omega)]
  rfl

/-- The end of the directory. -/
theorem turnErrno_end (h : Place L stat done [] d) (hlt : d.bufferUsed < d.bufferSize) :
    turnErrno (L.env stat) (errno, d) = .inl (.ok none, errno, d) := by
  have hleft := h.left
  have hturn : turn (L.env stat) d = .done (.ok none) d := by
    unfold turn
    simp only
    rw [if_pos (by rw [hleft]; simp [Header.size]), if_pos hlt]
  simp only [turnErrno, hturn]

/-- A full buffer that ends before the next header. -/
theorem turnErrno_refill (hleft : d.bufferUsed - d.bufferProcessed < Header.size)
    (hfull : ¬ d.bufferUsed < d.bufferSize) :
    turnErrno (L.env stat) (errno, d) = .inr (errno, L.fetch d) := by
  refine turnErrno_again ?_ (disappeared_short (by omega))
  unfold turn
  simp only
  rw [if_pos hleft, if_neg hfull, readEntries_raw]

/-- A buffer that ends in the next entry. -/
theorem turnErrno_cut (h : Place L stat done (e :: todo) d)
    (hheader : Header.size ≤ d.bufferUsed - d.bufferProcessed)
    (hleft : d.bufferUsed - d.bufferProcessed < e.size) :
    turnErrno (L.env stat) (errno, d) =
      .inr (errno, L.fetch { d with bufferSize := growSize d.bufferSize e.size }) := by
  unfold RawEntry.size at *
  refine turnErrno_again ?_ (disappeared_short ?_)
  · unfold turn
    simp only [h.header hheader, e.dNamlen_toNat]
    rw [if_neg (by omega), if_neg (by omega), if_pos hleft, grow_raw]
    rfl
  · rw [h.header hheader, e.dNamlen_toNat]
    exact hleft

/-- What `takeEntry` does, if nothing fails. -/
theorem takeEntry_raw (hhollow : e.hollow = false) :
    takeEntry (L.env stat) d e.header e.name =
      if e.gone stat then .again (d.pass e)
      else .done (.ok (some (e.dirent stat))) { d.pass e with cookie := e.next } := by
  have hroom : growSize d.direntSize (nameOffset + e.name.length + 1) = e.room d.direntSize := by
    rw [RawEntry.room, hhollow]
    rfl
  have hpass : d.pass e = { d with
      bufferProcessed := d.bufferProcessed + Header.size + e.name.length
      direntSize := e.room d.direntSize } := by
    rw [Dir.pass, RawEntry.size, Nat.add_assoc]
  rw [hpass]
  unfold takeEntry
  simp only [grow_raw, hroom]
  by_cases hino : e.ino = 0 ∧ e.name ≠ [0x2E, 0x2E]
  · have hheader : e.header.dIno = 0 ∧ e.name ≠ [0x2E, 0x2E] := hino
    have hlook : e.lookedUp = true := decide_eq_true hino
    rw [if_pos hheader, RawEntry.gone, RawEntry.dirent, hhollow, hlook]
    cases hstat : stat e.name with
    | none =>
      simp only [RawListing.env, hstat]
      rfl
    | some s =>
      simp only [RawListing.env, hstat]
      rfl
  · have hheader : ¬ (e.header.dIno = 0 ∧ e.name ≠ [0x2E, 0x2E]) := hino
    have hlook : e.lookedUp = false := decide_eq_false hino
    rw [if_neg hheader, RawEntry.gone, RawEntry.dirent, hhollow, hlook]
    cases stat e.name <;> rfl

theorem turn_hollow (h : Place L stat done (e :: todo) d)
    (hleft : e.size ≤ d.bufferUsed - d.bufferProcessed) (hhollow : e.hollow = true) :
    turn (L.env stat) d = .again (d.pass e) ∧ disappeared (L.env stat) d = false := by
  have hlt : Header.size ≤ d.bufferUsed - d.bufferProcessed := by
    unfold RawEntry.size at hleft
    omega
  have hpass : d.pass e = { d with bufferProcessed := d.bufferProcessed + e.size } := by
    rw [Dir.pass, RawEntry.room, if_pos hhollow]
  have hcases := of_decide_eq_true hhollow
  constructor
  · unfold turn
    simp only [h.header hlt, e.dNamlen_toNat, h.name hleft]
    rw [if_neg (by omega), hpass]
    rcases hcases with hempty | hnul
    · rw [if_pos (by rw [hempty]; rfl)]
      rfl
    · have hne : e.name.length ≠ 0 := fun h0 => by
        rw [List.eq_nil_of_length_eq_zero h0] at hnul
        exact List.not_mem_nil hnul
      unfold RawEntry.size at *
      rw [if_neg hne, if_neg (by omega), if_pos hnul]
  · unfold disappeared
    simp only [h.header hlt, e.dNamlen_toNat, h.name hleft]
    rw [decide_eq_false (by
      rintro ⟨-, hlen, hnul⟩
      rcases hcases with hempty | hmem
      · exact hlen (by rw [hempty]; rfl)
      · exact hnul hmem)]
    rfl

theorem turn_named (h : Place L stat done (e :: todo) d)
    (hleft : e.size ≤ d.bufferUsed - d.bufferProcessed) (hhollow : e.hollow = false) :
    turn (L.env stat) d = takeEntry (L.env stat) d e.header e.name ∧
      disappeared (L.env stat) d = e.gone stat := by
  have hlt : Header.size ≤ d.bufferUsed - d.bufferProcessed := by
    unfold RawEntry.size at hleft
    omega
  obtain ⟨hempty, hnul⟩ := not_or.mp (of_decide_eq_false hhollow)
  have hlen : e.name.length ≠ 0 := fun h0 => hempty (List.eq_nil_of_length_eq_zero h0)
  unfold RawEntry.size at hleft
  constructor
  · unfold turn
    simp only [h.header hlt, e.dNamlen_toNat, h.name hleft]
    rw [if_neg (by omega), if_neg hlen, if_neg (by omega), if_neg hnul]
  · unfold disappeared
    simp only [h.header hlt, e.dNamlen_toNat, h.name hleft, grow_raw]
    rw [decide_eq_true ⟨hleft, hlen, hnul⟩, RawEntry.gone, hhollow, RawEntry.lookedUp]
    simp only [RawListing.env, RawEntry.header]
    cases stat e.name <;> rfl

/-- An entry in the buffer that is passed over. -/
theorem turnErrno_skip (h : Place L stat done (e :: todo) d)
    (hleft : e.size ≤ d.bufferUsed - d.bufferProcessed) (hskip : e.skipped stat = true) :
    turnErrno (L.env stat) (errno, d) =
      .inr (if e.gone stat then some ENOENT else errno, d.pass e) := by
  cases hhollow : e.hollow with
  | true =>
    obtain ⟨hturn, hkeep⟩ := turn_hollow h hleft hhollow
    rw [turnErrno_again hturn hkeep, RawEntry.gone, hhollow]
    rfl
  | false =>
    obtain ⟨hturn, hgone⟩ := turn_named h hleft hhollow
    have hskip : e.gone stat = true := by rwa [RawEntry.skipped, hhollow] at hskip
    rw [takeEntry_raw hhollow, if_pos hskip] at hturn
    simp only [turnErrno, hturn, hgone]

/-- An entry in the buffer that is returned. -/
theorem turnErrno_take (h : Place L stat done (e :: todo) d)
    (hleft : e.size ≤ d.bufferUsed - d.bufferProcessed) (hskip : e.skipped stat = false) :
    turnErrno (L.env stat) (errno, d) =
      .inl (.ok (some (e.dirent stat)), errno, { d.pass e with cookie := e.next }) := by
  obtain ⟨hhollow, hgone⟩ := Bool.or_eq_false_iff.mp hskip
  have hturn := (turn_named h hleft hhollow).1
  rw [takeEntry_raw hhollow, hgone] at hturn
  simp only [turnErrno, hturn]
  rfl

/-! ## How far the buffer must reach -/

/-- The size of a buffer with all that a call has to see: the entries that it
passes over and the one that it returns, or that there are no more. -/
def need (stat : List UInt8 → Option Stat) : List RawEntry → Nat
  | [] => 1
  | e :: es => if e.skipped stat then e.size + need stat es else e.size

/-- The buffer grows: it ends in an entry that it cannot hold, behind the
header. -/
def Growth (stat : List UInt8 → Option Stat) (es : List RawEntry) (size size' : Nat) : Prop :=
  ∃ done e todo, es = done ++ e :: todo ∧ (∀ e' ∈ done, e'.skipped stat = true) ∧
    total done + Header.size ≤ size ∧ size < e.size ∧ size' = growSize size e.size

/-- The sizes that the buffer takes in a call. -/
def Grown (stat : List UInt8 → Option Stat) (es : List RawEntry) : Nat → Nat → Prop :=
  Relation.ReflTransGen (Growth stat es)

/-- The buffer grows until all that the call has to see is in it. -/
def Served (stat : List UInt8 → Option Stat) (es : List RawEntry) (size : Nat) : Prop :=
  ∃ size', Grown stat es size size' ∧ need stat es ≤ size'

section Sizes

variable {stat : List UInt8 → Option Stat} {done todo es : List RawEntry} {e : RawEntry}
  {size size₁ size₂ : Nat}

theorem need_append (h : ∀ e ∈ done, e.skipped stat = true) :
    need stat (done ++ todo) = total done + need stat todo := by
  induction done with
  | nil => simp
  | cons e done ih =>
    obtain ⟨he, hdone⟩ := List.forall_mem_cons.mp h
    rw [List.cons_append, need, if_pos he, ih hdone, total_cons, Nat.add_assoc]

theorem size_le_need (stat : List UInt8 → Option Stat) (e : RawEntry) (todo : List RawEntry) :
    e.size ≤ need stat (e :: todo) := by
  rw [need]
  split <;> omega

theorem Growth.lt_need (h : Growth stat es size size₁) : size < need stat es := by
  obtain ⟨done, e, todo, rfl, hskip, -, hlt, -⟩ := h
  have hle := size_le_need stat e todo
  rw [need_append hskip]
  omega

/-- The entry that makes the buffer grow is the first one that is not wholly
in it. -/
theorem Growth.of_cut (h : Growth stat (done ++ e :: todo) size size₁)
    (hdone : total done ≤ size) (hcut : size < total done + e.size) :
    size₁ = growSize size e.size ∧ size < e.size ∧ total done + Header.size ≤ size := by
  obtain ⟨done', e', todo', heq, -, hheader, hlt, hsize⟩ := h
  rcases List.append_eq_append_iff.mp heq with ⟨between, rfl, hrest⟩ | ⟨between, rfl, hrest⟩
  · cases between with
    | nil =>
      obtain ⟨rfl, -⟩ := List.cons.inj hrest
      rw [List.append_nil] at hheader
      exact ⟨hsize, hlt, hheader⟩
    | cons a between =>
      obtain ⟨rfl, -⟩ := List.cons.inj hrest
      rw [total_append, total_cons] at hheader
      omega
  · cases between with
    | nil =>
      obtain ⟨rfl, -⟩ := List.cons.inj hrest
      rw [List.append_nil] at hcut ⊢
      exact ⟨hsize, hlt, hheader⟩
    | cons a between =>
      obtain ⟨rfl, -⟩ := List.cons.inj hrest
      rw [total_append, total_cons] at hdone
      omega

theorem Growth.unique (h₁ : Growth stat es size size₁) (h₂ : Growth stat es size size₂) :
    size₁ = size₂ := by
  obtain ⟨done, e, todo, rfl, -, hheader, hlt, rfl⟩ := h₁
  exact ((h₂.of_cut (by omega) (by omega)).1).symm

/-- Every growth is on the way to the size that is needed. -/
theorem Grown.tail (h : Grown stat es size size₂) (hneed : need stat es ≤ size₂)
    (hgrowth : Growth stat es size size₁) : Grown stat es size₁ size₂ := by
  rcases Relation.ReflTransGen.cases_head h with rfl | ⟨mid, hfirst, hrest⟩
  · have := hgrowth.lt_need
    omega
  · rwa [hgrowth.unique hfirst]

theorem Grown.unique (h₁ : Grown stat es size size₁) (hneed₁ : need stat es ≤ size₁)
    (h₂ : Grown stat es size size₂) (hneed₂ : need stat es ≤ size₂) : size₁ = size₂ := by
  induction h₁ using Relation.ReflTransGen.head_induction_on with
  | refl =>
    rcases Relation.ReflTransGen.cases_head h₂ with rfl | ⟨mid, hfirst, -⟩
    · rfl
    · have := hfirst.lt_need
      omega
  | head hfirst _ ih => exact ih (Grown.tail h₂ hneed₂ hfirst)

theorem Growth.le (h : Growth stat es size size₁) (hpos : 0 < size) : size ≤ size₁ := by
  obtain ⟨-, e, -, -, -, -, -, rfl⟩ := h
  exact (le_growSize hpos e.size).1

end Sizes

/-! ## Calls that return -/

/-- Does a call look up an entry that has disappeared? -/
def lost (stat : List UInt8 → Option Stat) (es : List RawEntry) : Bool :=
  (es.takeWhile fun e => e.skipped stat).any fun e => e.gone stat

/-- The entries behind the one that a call returns. -/
def behind (stat : List UInt8 → Option Stat) (es : List RawEntry) : List RawEntry :=
  (es.dropWhile fun e => e.skipped stat).tail

/-- The next call has `es` before it. -/
inductive Ready (L : RawListing) (stat : List UInt8 → Option Stat) : List RawEntry → Dir → Prop
  | entries {es : List RawEntry} {d : Dir} (h : Place L stat [] es d) : Ready L stat es d
  | ended {done : List RawEntry} {d : Dir} (h : Place L stat done [] d)
      (hlt : d.bufferUsed < d.bufferSize) : Ready L stat [] d

/-- What a call that began in `start` leaves behind. -/
structure Outcome (L : RawListing) (stat : List UInt8 → Option Stat) (es : List RawEntry)
    (start : Dir) (size : Nat) (r : Except Errno (Option Dirent) × Option Errno × Dir) : Prop where
  result : r.1 = .ok ((survivors stat es).head?.map (RawEntry.dirent stat))
  errno : r.2.1 = if lost stat es then some ENOENT else none
  ready : Ready L stat (behind stat es) r.2.2
  size : r.2.2.bufferSize = size
  cookie : r.2.2.cookie = ((survivors stat es).head?.map RawEntry.next).getD start.cookie
  room : lost stat es = false → r.2.2.direntSize =
    ((survivors stat es).head?.map fun e => e.room start.direntSize).getD start.direntSize

/-- What has happened so far in a call that began in `start`. -/
structure Track (stat : List UInt8 → Option Stat) (start : Dir) (done todo : List RawEntry)
    (errno : Option Errno) (d : Dir) : Prop where
  errno : errno = none ∧ (done.any fun e => e.gone stat) = false ∨
    errno = some ENOENT ∧ lost stat (done ++ todo) = true
  cookie : d.cookie = start.cookie
  room : lost stat (done ++ todo) = false → d.direntSize = start.direntSize

section Runs

variable {es : List RawEntry} {start : Dir}

theorem lost_append (h : ∀ e ∈ done, e.skipped stat = true) :
    lost stat (done ++ todo) = ((done.any fun e => e.gone stat) || lost stat todo) := by
  rw [lost, List.takeWhile_append_of_pos h, List.any_append, lost]

theorem lost_cons_of_not_skipped (h : e.skipped stat = false) : lost stat (e :: todo) = false := by
  rw [lost, List.takeWhile_cons_of_neg (by simp [h])]
  rfl

theorem survivors_append (h : ∀ e ∈ done, e.skipped stat = true) :
    survivors stat (done ++ todo) = survivors stat todo := by
  have hdone : done.filter (fun e => !e.skipped stat) = [] := by
    rw [List.filter_eq_nil_iff]
    intro e he
    simp [h e he]
  rw [survivors, List.filter_append, hdone, List.nil_append, survivors]

theorem survivors_cons_of_not_skipped (h : e.skipped stat = false) :
    survivors stat (e :: todo) = e :: survivors stat todo := by
  rw [survivors, List.filter_cons_of_pos (by simp [h]), survivors]

theorem behind_append (h : ∀ e ∈ done, e.skipped stat = true) :
    behind stat (done ++ todo) = behind stat todo := by
  rw [behind, List.dropWhile_append_of_pos h, behind]

theorem behind_cons_of_not_skipped (h : e.skipped stat = false) :
    behind stat (e :: todo) = todo := by
  rw [behind, List.dropWhile_cons_of_neg (by simp [h]), List.tail_cons]

/-- The errno of a call that has passed over all that it had to. -/
theorem Track.errno_eq (h : Track stat start done todo errno d)
    (hlost : lost stat (done ++ todo) = done.any fun e => e.gone stat) :
    errno = if lost stat (done ++ todo) then some ENOENT else none := by
  rcases h.errno with ⟨herrno, hnone⟩ | ⟨herrno, hsome⟩
  · rw [hlost, hnone, herrno]
    rfl
  · rw [hsome, herrno]
    rfl

theorem Track.pass (h : Track stat start done (e :: todo) errno d)
    (hdone : ∀ e ∈ done, e.skipped stat = true) (hskip : e.skipped stat = true) :
    Track stat start (done ++ [e]) todo (if e.gone stat then some ENOENT else errno) (d.pass e) := by
  have hlost : lost stat (done ++ e :: todo) =
      ((done.any fun e => e.gone stat) || (e.gone stat || lost stat todo)) := by
    rw [lost_append hdone, ← List.singleton_append, lost_append (by simpa using hskip)]
    simp
  refine ⟨?_, h.cookie, ?_⟩
  · rw [List.append_assoc, List.singleton_append]
    cases hgone : e.gone stat with
    | true =>
      refine .inr ⟨rfl, ?_⟩
      rw [hlost, hgone]
      simp
    | false =>
      rcases h.errno with ⟨herrno, hnone⟩ | ⟨herrno, hsome⟩
      · exact .inl ⟨herrno, by simp [hnone, hgone]⟩
      · exact .inr ⟨herrno, hsome⟩
  · rw [List.append_assoc, List.singleton_append]
    intro hnone
    have hgone : e.gone stat = false := by
      rw [hlost] at hnone
      simp only [Bool.or_eq_false_iff] at hnone
      exact hnone.2.1
    -- an entry that is passed over without a lookup has no name
    have hhollow : e.hollow = true := by
      rwa [RawEntry.skipped, hgone, Bool.or_false] at hskip
    simp only [Dir.pass, RawEntry.room, if_pos hhollow]
    exact h.room hnone

/-- The buffer has all that is needed: the call returns without a fetch. -/
theorem Place.ends (h : Place L stat done todo d) (htrack : Track stat start done todo errno d)
    (hneed : need stat todo ≤ d.bufferSize - d.bufferProcessed) :
    ∃ r, Loop.Ends (turnErrno (L.env stat)) (errno, d) r ∧
      Outcome L stat (done ++ todo) start d.bufferSize r := by
  induction todo generalizing done errno d with
  | nil =>
    have hleft := h.left
    have hused := h.le_used
    rw [need] at hneed
    rw [total_nil] at hleft
    have hlost : lost stat (done ++ []) = done.any fun e => e.gone stat := by
      rw [lost_append h.skipped]
      exact Bool.or_false _
    have hlt : d.bufferUsed < d.bufferSize := by omega
    refine ⟨_, .stop (turnErrno_end h hlt), ?_, htrack.errno_eq hlost, ?_, rfl, ?_, ?_⟩
    · rw [survivors_append h.skipped]
      rfl
    · rw [behind_append h.skipped]
      exact .ended h hlt
    · rw [survivors_append h.skipped]
      exact htrack.cookie
    · rw [survivors_append h.skipped]
      exact htrack.room
  | cons e todo ih =>
    have hleft := h.left
    have hle := size_le_need stat e todo
    rw [total_cons] at hleft
    have hfits : e.size ≤ d.bufferUsed - d.bufferProcessed := by omega
    cases hskip : e.skipped stat with
    | true =>
      rw [need, if_pos hskip] at hneed
      have hrest : need stat todo ≤ (d.pass e).bufferSize - (d.pass e).bufferProcessed := by
        simp only [Dir.pass]
        omega
      obtain ⟨r, hends, hout⟩ := ih (h.pass hfits hskip) (htrack.pass h.skipped hskip) hrest
      rw [List.append_assoc] at hout
      exact ⟨r, .next (turnErrno_skip h hfits hskip) hends, hout⟩
    | false =>
      have hlost : lost stat (done ++ e :: todo) = done.any fun e => e.gone stat := by
        rw [lost_append h.skipped, lost_cons_of_not_skipped hskip, Bool.or_false]
      have hnext : survivors stat (done ++ e :: todo) = e :: survivors stat todo := by
        rw [survivors_append h.skipped, survivors_cons_of_not_skipped hskip]
      refine ⟨_, .stop (turnErrno_take h hfits hskip), ?_, htrack.errno_eq hlost, ?_, rfl, ?_, ?_⟩
      · rw [hnext]
        rfl
      · rw [behind_append h.skipped, behind_cons_of_not_skipped hskip]
        exact .entries (h.take hfits)
      · rw [hnext]
        rfl
      · intro hnone
        rw [hnext]
        exact congrArg e.room (htrack.room hnone)

/-- The state before a fetch: the size is the one of the buffer, or the one
to which it grows. -/
structure Before (L : RawListing) (stat : List UInt8 → Option Stat) (es : List RawEntry)
    (start : Dir) (size : Nat) (errno : Option Errno) (d : Dir) : Prop where
  after : L.after d.cookie = es
  dirent : 0 < d.direntSize
  track : Track stat start [] es errno d
  size : d.bufferSize = size ∨ Growth stat es size d.bufferSize

theorem Track.fetch (h : Track stat start done todo errno d) :
    Track stat start [] (done ++ todo) errno d := by
  refine ⟨?_, h.cookie, h.room⟩
  rcases h.errno with ⟨herrno, -⟩ | hsome
  · exact .inl ⟨herrno, rfl⟩
  · exact .inr hsome

/-- The buffer ends in the next entry.  It grows if the entry is behind its
header, and larger than the buffer. -/
theorem Place.cut (h : Place L stat done (e :: todo) d) (errno : Option Errno)
    (hleft : d.bufferUsed - d.bufferProcessed < e.size) :
    ∃ size, turnErrno (L.env stat) (errno, d) = .inr (errno, L.fetch { d with bufferSize := size }) ∧
      (size = d.bufferSize ∨ Growth stat (done ++ e :: todo) d.bufferSize size) ∧
      (Header.size ≤ d.bufferSize - d.bufferProcessed → size = growSize d.bufferSize e.size) := by
  have hfill := h.left
  have hused := h.le_used
  have hsize := h.le_size
  have hdone := h.done_le
  rw [total_cons] at hfill
  by_cases hheader : Header.size ≤ d.bufferUsed - d.bufferProcessed
  · refine ⟨_, turnErrno_cut h hheader hleft, ?_, fun _ => rfl⟩
    by_cases hlt : d.bufferSize < e.size
    · exact .inr ⟨done, e, todo, rfl, h.skipped, by omega, hlt, rfl⟩
    · left
      rw [growSize, if_neg (by omega)]
  · refine ⟨d.bufferSize, turnErrno_refill (by omega) (by omega), .inl rfl, ?_⟩
    omega

variable {size : Nat}

theorem Place.le_grown (h : Place L stat done todo d)
    (hsize : size = d.bufferSize ∨ Growth stat es d.bufferSize size) : d.bufferSize ≤ size := by
  rcases hsize with rfl | hgrowth
  · exact Nat.le_refl _
  · exact hgrowth.le (Nat.lt_of_lt_of_le (by decide) h.size)

/-- The buffer does not have all that is needed: the call comes to a fetch. -/
theorem Place.comes_to_fetch (h : Place L stat done todo d)
    (htrack : Track stat start done todo errno d)
    (hneed : d.bufferSize - d.bufferProcessed < need stat todo) :
    ∃ errno' d', (∀ r, Loop.Ends (turnErrno (L.env stat)) (errno', L.fetch d') r →
        Loop.Ends (turnErrno (L.env stat)) (errno, d) r) ∧
      Before L stat (done ++ todo) start d.bufferSize errno' d' ∧
      (d.bufferProcessed = total done → ∀ size, Growth stat (done ++ todo) d.bufferSize size →
        d'.bufferSize = size) := by
  induction todo generalizing done errno d with
  | nil =>
    have hleft := h.left
    have hused := h.le_used
    have hsize := h.le_size
    rw [need] at hneed
    rw [total_nil] at hleft
    have hturn : turnErrno (L.env stat) (errno, d) = .inr (errno, L.fetch d) :=
      turnErrno_refill (by unfold Header.size; omega) (by omega)
    refine ⟨errno, d, fun r hr => .next hturn hr, ⟨h.after, h.dirent, htrack.fetch, .inl rfl⟩, ?_⟩
    intro hbase size hgrowth
    have hlt := hgrowth.lt_need
    obtain ⟨done', e, todo', heq, hskip, hheader, hlarge, -⟩ := hgrowth
    have htotal := congrArg total heq
    simp only [total_append, total_cons, total_nil] at htotal
    omega
  | cons e todo ih =>
    have hleft := h.left
    have hsize := h.le_size
    rw [total_cons] at hleft
    by_cases hfits : e.size ≤ d.bufferSize - d.bufferProcessed
    · have hin : e.size ≤ d.bufferUsed - d.bufferProcessed := by omega
      have hskip : e.skipped stat = true := by
        by_contra hskip
        rw [need, if_neg hskip] at hneed
        omega
      rw [need, if_pos hskip] at hneed
      have hrest : (d.pass e).bufferSize - (d.pass e).bufferProcessed < need stat todo := by
        simp only [Dir.pass]
        omega
      obtain ⟨errno', d', hends, hbefore, hgrowth⟩ :=
        ih (h.pass hin hskip) (htrack.pass h.skipped hskip) hrest
      rw [List.append_assoc] at hbefore hgrowth
      refine ⟨errno', d', fun r hr => .next (turnErrno_skip h hin hskip) (hends r hr), hbefore, ?_⟩
      intro hbase
      apply hgrowth
      simp only [Dir.pass, total_append, total_cons, total_nil, hbase]
      omega
    · obtain ⟨size, hturn, hto, hcut⟩ := h.cut errno (by omega)
      refine ⟨errno, _, fun r hr => .next hturn hr,
        ⟨h.after, h.dirent, ⟨htrack.fetch.errno, htrack.cookie, htrack.fetch.room⟩, hto⟩, ?_⟩
      intro hbase size' hgrowth
      obtain ⟨heq, -, hheader⟩ := hgrowth.of_cut (by omega) (by omega)
      rw [heq]
      exact hcut (by omega)

theorem Before.place (h : Before L stat es start size errno d)
    (hsize : defaultBufferSize ≤ size) : Place L stat [] es (L.fetch d) := by
  have hle : defaultBufferSize ≤ d.bufferSize := by
    rcases h.size with heq | hgrowth
    · omega
    · exact Nat.le_trans hsize (hgrowth.le (Nat.lt_of_lt_of_le (by decide) hsize))
  exact h.after ▸ place_fetch hle h.dirent

theorem Before.track_fetch (h : Before L stat es start size errno d) :
    Track stat start [] es errno (L.fetch d) :=
  ⟨h.track.errno, h.track.cookie, h.track.room⟩

/-- After a fetch the buffer grows as far as it has to. -/
theorem Place.ends_of_grown (hgrown : Grown stat es d.bufferSize size)
    (hneed : need stat es ≤ size) (h : Place L stat [] es d) (hstart : d.bufferProcessed = 0)
    (htrack : Track stat start [] es errno d) :
    ∃ r, Loop.Ends (turnErrno (L.env stat)) (errno, d) r ∧ Outcome L stat es start size r := by
  generalize hsize : d.bufferSize = start at hgrown
  induction hgrown using Relation.ReflTransGen.head_induction_on generalizing d errno with
  | refl =>
    subst hsize
    exact h.ends htrack (by omega)
  | head hgrowth _ ih =>
    subst hsize
    have hlt := hgrowth.lt_need
    obtain ⟨errno', d', hends, hbefore, hto⟩ := h.comes_to_fetch htrack (by omega)
    obtain ⟨r, hr, hout⟩ := ih (hbefore.place h.size) rfl hbefore.track_fetch
      (hto hstart _ hgrowth)
    exact ⟨r, hends r hr, hout⟩

/-- A call returns if the buffer grows as far as it has to. -/
theorem Ready.returns (h : Ready L stat es d)
    (hgrown : Grown stat es d.bufferSize size) (hneed : need stat es ≤ size) :
    ∃ r, Loop.Ends (turnErrno (L.env stat)) (none, d) r ∧
      Outcome L stat es d size r := by
  cases h with
  | ended h hlt =>
    have hsize : d.bufferSize = size := by
      rcases Relation.ReflTransGen.cases_head hgrown with heq | ⟨mid, hgrowth, -⟩
      · exact heq
      · obtain ⟨done, e, todo, heq, -⟩ := hgrowth
        simp at heq
    exact ⟨_, .stop (turnErrno_end h hlt), rfl, rfl, .ended h hlt, hsize, rfl, fun _ => rfl⟩
  | entries h =>
    have htrack : Track stat d [] es none d := ⟨.inl ⟨rfl, rfl⟩, rfl, fun _ => rfl⟩
    by_cases hin : need stat es ≤ d.bufferSize - d.bufferProcessed
    · obtain ⟨r, hends, hout⟩ := h.ends htrack hin
      have hsize := Grown.unique .refl (by omega) hgrown hneed
      exact ⟨r, hends, hsize ▸ hout⟩
    · obtain ⟨errno', d', hends, hbefore, -⟩ := h.comes_to_fetch htrack (by omega)
      have hrest : Grown stat es (L.fetch d').bufferSize size := by
        rcases hbefore.size with heq | hgrowth
        · rwa [← heq] at hgrown
        · exact Grown.tail hgrown hneed hgrowth
      obtain ⟨r, hr, hout⟩ := Place.ends_of_grown hrest hneed (hbefore.place h.size) rfl
        hbefore.track_fetch
      exact ⟨r, hends r hr, hout⟩

/-! ## Calls that do not return -/

/-- The buffer never has all that is needed. -/
def Unserved (L : RawListing) (stat : List UInt8 → Option Stat) (s : Option Errno × Dir) : Prop :=
  ∃ done todo, Place L stat done todo s.2 ∧ ¬ Served stat (done ++ todo) s.2.bufferSize

theorem need_of_served (h : ¬ Served stat es d.bufferSize) : d.bufferSize < need stat es := by
  by_contra hle
  exact h ⟨_, .refl, by omega⟩

theorem Unserved.fetch (hplace : Place L stat done todo d)
    (hserved : ¬ Served stat (done ++ todo) d.bufferSize)
    (hsize : size = d.bufferSize ∨ Growth stat (done ++ todo) d.bufferSize size) :
    Unserved L stat (errno, L.fetch { d with bufferSize := size }) := by
  have hle := Nat.le_trans hplace.size (hplace.le_grown hsize)
  refine ⟨[], _, place_fetch hle hplace.dirent, ?_⟩
  rintro ⟨size', hgrown, hneed⟩
  have hafter : L.after d.cookie = done ++ todo := hplace.after
  simp only [List.nil_append, hafter] at hgrown hneed
  rcases hsize with rfl | hgrowth
  · exact hserved ⟨size', hgrown, hneed⟩
  · exact hserved ⟨size', .head hgrowth hgrown, hneed⟩

/-- Then every turn leads to the next one. -/
theorem Unserved.step {s : Option Errno × Dir} (h : Unserved L stat s) :
    ∃ s', turnErrno (L.env stat) s = .inr s' ∧ Unserved L stat s' := by
  obtain ⟨errno, d⟩ := s
  obtain ⟨done, todo, hplace, hserved⟩ := h
  simp only at hplace hserved
  have hlt := need_of_served hserved
  have hleft := hplace.left
  have hdone := hplace.done_le
  have hused := hplace.le_used
  have hsize := hplace.le_size
  rw [need_append hplace.skipped] at hlt
  cases todo with
  | nil =>
    rw [total_nil] at hleft
    rw [need] at hlt
    exact ⟨_, turnErrno_refill (by unfold Header.size; omega) (by omega),
      Unserved.fetch hplace hserved (.inl rfl)⟩
  | cons e todo =>
    rw [total_cons] at hleft
    by_cases hin : e.size ≤ d.bufferUsed - d.bufferProcessed
    · have hskip : e.skipped stat = true := by
        by_contra hskip
        rw [need, if_neg hskip] at hlt
        omega
      refine ⟨_, turnErrno_skip hplace hin hskip, done ++ [e], todo, hplace.pass hin hskip, ?_⟩
      rw [List.append_assoc]
      exact hserved
    · obtain ⟨size, hturn, hto, -⟩ := hplace.cut errno (by omega)
      exact ⟨_, hturn, Unserved.fetch hplace hserved hto⟩

/-- A call returns only if the buffer grows as far as it has to. -/
theorem Ready.served {r : Except Errno (Option Dirent) × Option Errno × Dir}
    (h : Ready L stat es d) (hends : Loop.Ends (turnErrno (L.env stat)) (errno, d) r) :
    Served stat es d.bufferSize := by
  cases h with
  | ended h hlt => exact ⟨d.bufferSize, .refl, Nat.le_trans (show 1 ≤ defaultBufferSize by decide) h.size⟩
  | entries h =>
    by_contra hserved
    have hunserved : Unserved L stat (errno, d) := ⟨[], es, h, hserved⟩
    exact Loop.not_ends (fun s hs => hs.step) hunserved hends

/-! ## Whole scans -/

/-- At every place of a scan that starts with a buffer of this size, the
buffer grows as far as it has to. -/
inductive Enumerable (stat : List UInt8 → Option Stat) : Nat → List RawEntry → Prop
  | last {size size' : Nat} {es : List RawEntry} (hgrown : Grown stat es size size')
      (hneed : need stat es ≤ size') (hnone : survivors stat es = []) : Enumerable stat size es
  | next {size size' : Nat} {es : List RawEntry} (hgrown : Grown stat es size size')
      (hneed : need stat es ≤ size') (hsome : survivors stat es ≠ [])
      (hrest : Enumerable stat size' (behind stat es)) : Enumerable stat size es

theorem survivors_behind (es : List RawEntry) :
    survivors stat (behind stat es) = (survivors stat es).tail := by
  induction es with
  | nil => rfl
  | cons e es ih =>
    cases hskip : e.skipped stat with
    | true =>
      have hone : ∀ e' ∈ [e], e'.skipped stat = true := by simpa using hskip
      rw [← List.singleton_append, behind_append hone, survivors_append hone, ih]
    | false =>
      rw [behind_cons_of_not_skipped hskip, survivors_cons_of_not_skipped hskip, List.tail_cons]

theorem readdirs_succ (env : Env) (fuel n : Nat) (d : Dir) :
    readdirs env fuel (n + 1) d = (Loop.run (turnErrno env) fuel (none, d)).bind fun r =>
      (readdirs env fuel n r.2.2).map fun rest => r.1 :: rest := by
  rw [readdirs, readdir_eq_run env fuel none d]
  cases Loop.run (turnErrno env) fuel (none, d) with
  | none => rfl
  | some r =>
    simp only [Option.map_some, Option.bind_eq_bind, Option.bind_some]
    cases readdirs env fuel n r.2.2 <;> rfl

theorem readdirs_mono {env : Env} {fuel fuel' n : Nat} (hle : fuel ≤ fuel')
    {results : List (Except Errno (Option Dirent))} (h : readdirs env fuel n d = some results) :
    readdirs env fuel' n d = some results := by
  induction n generalizing d results with
  | zero => exact h
  | succ n ih =>
    rw [readdirs_succ] at h ⊢
    obtain ⟨r, hrun, hrest⟩ := Option.bind_eq_some_iff.mp h
    obtain ⟨rest, hcalls, rfl⟩ := Option.map_eq_some_iff.mp hrest
    rw [Loop.run_mono hle hrun, Option.bind_some, ih hcalls]
    rfl

/-- A call that returns, and what comes after it. -/
theorem readdirs_succ_iff {env : Env} {n : Nat} {results : List (Except Errno (Option Dirent))} :
    (∃ fuel, readdirs env fuel (n + 1) d = some results) ↔
      ∃ r rest, Loop.Ends (turnErrno env) (none, d) r ∧
        (∃ fuel, readdirs env fuel n r.2.2 = some rest) ∧ results = r.1 :: rest := by
  constructor
  · rintro ⟨fuel, h⟩
    rw [readdirs_succ] at h
    obtain ⟨r, hrun, hrest⟩ := Option.bind_eq_some_iff.mp h
    obtain ⟨rest, hcalls, rfl⟩ := Option.map_eq_some_iff.mp hrest
    exact ⟨r, rest, Loop.ends_iff_run.mpr ⟨fuel, hrun⟩, ⟨fuel, hcalls⟩, rfl⟩
  · rintro ⟨r, rest, hends, ⟨fuel, hcalls⟩, rfl⟩
    obtain ⟨turns, hrun⟩ := Loop.ends_iff_run.mp hends
    refine ⟨max turns fuel, ?_⟩
    rw [readdirs_succ, Loop.run_mono (Nat.le_max_left _ _) hrun, Option.bind_some,
      readdirs_mono (Nat.le_max_right _ _) hcalls]
    rfl

/-- The results of `n` calls that return the entries and then NULL. -/
def listed (stat : List UInt8 → Option Stat) (es : List RawEntry) (n : Nat) :
    List (Except Errno (Option Dirent)) :=
  (List.range n).map fun i => .ok ((survivors stat es)[i]?.map (RawEntry.dirent stat))

theorem listed_succ (es : List RawEntry) (n : Nat) :
    listed stat es (n + 1) = .ok ((survivors stat es).head?.map (RawEntry.dirent stat)) ::
      listed stat (behind stat es) n := by
  rw [listed, listed, survivors_behind, List.range_succ_eq_map, List.map_cons, List.map_map,
    List.head?_eq_getElem?]
  congr 1
  refine List.map_congr_left fun i _ => ?_
  simp

/-- Every call returns, with the entries in order and then NULL. -/
def Lists (env : Env) (stat : List UInt8 → Option Stat) (es : List RawEntry) (d : Dir) : Prop :=
  ∀ n, ∃ fuel, readdirs env fuel n d = some (listed stat es n)

/-- The first of the calls, and the other ones. -/
theorem Outcome.lists_iff {start : Dir} {r : Except Errno (Option Dirent) × Option Errno × Dir}
    (h : Outcome L stat es start size r)
    (hends : Loop.Ends (turnErrno (L.env stat)) (none, d) r) :
    Lists (L.env stat) stat es d ↔ Lists (L.env stat) stat (behind stat es) r.2.2 := by
  constructor
  · intro hlists n
    obtain ⟨r', rest, hends', hcalls, heq⟩ := readdirs_succ_iff.mp (hlists (n + 1))
    obtain rfl := hends.unique hends'
    rw [listed_succ] at heq
    obtain ⟨-, rfl⟩ := List.cons.inj heq
    exact hcalls
  · intro hlists n
    cases n with
    | zero => exact ⟨0, rfl⟩
    | succ n =>
      rw [readdirs_succ_iff, listed_succ]
      exact ⟨r, _, hends, hlists n, by rw [h.result]⟩

theorem behind_eq_nil (h : survivors stat es = []) : behind stat es = [] := by
  have hskip : ∀ e ∈ es, e.skipped stat = true := by simpa [survivors] using h
  have hbehind : behind stat (es ++ []) = behind stat [] := behind_append hskip
  rwa [List.append_nil] at hbehind

/-- At the end every call returns NULL. -/
theorem Ready.lists_nil (h : Ready L stat [] d) : Lists (L.env stat) stat [] d := by
  intro n
  induction n generalizing d with
  | zero => exact ⟨0, rfl⟩
  | succ n ih =>
    have hsize : defaultBufferSize ≤ d.bufferSize := by
      cases h with
      | entries h => exact h.size
      | ended h _ => exact h.size
    obtain ⟨r, hends, hout⟩ := h.returns .refl
      (Nat.le_trans (show 1 ≤ defaultBufferSize by decide) hsize)
    rw [readdirs_succ_iff, listed_succ]
    exact ⟨r, _, hends, ih hout.ready, by rw [hout.result]; rfl⟩

theorem Ready.enumerable (h : Ready L stat es d) (hlists : Lists (L.env stat) stat es d) :
    Enumerable stat d.bufferSize es := by
  generalize hsurvivors : survivors stat es = ss
  induction ss generalizing es d with
  | nil =>
    obtain ⟨r, -, hends, -⟩ := readdirs_succ_iff.mp (hlists 1)
    obtain ⟨size, hgrown, hneed⟩ := h.served hends
    exact .last hgrown hneed hsurvivors
  | cons e ss ih =>
    obtain ⟨r, -, hends, -⟩ := readdirs_succ_iff.mp (hlists 1)
    obtain ⟨size, hgrown, hneed⟩ := h.served hends
    obtain ⟨r, hends, hout⟩ := h.returns hgrown hneed
    have htail : survivors stat (behind stat es) = ss := by
      rw [survivors_behind, hsurvivors, List.tail_cons]
    refine .next hgrown hneed (by rw [hsurvivors]; exact List.cons_ne_nil e ss) ?_
    have hrest := ih hout.ready ((hout.lists_iff hends).mp hlists) htail
    rwa [hout.size] at hrest

theorem Ready.lists (h : Ready L stat es d) (hsize : d.bufferSize = size)
    (henum : Enumerable stat size es) : Lists (L.env stat) stat es d := by
  induction henum generalizing d with
  | last hgrown hneed hnone =>
    obtain ⟨r, hends, hout⟩ := h.returns (hsize ▸ hgrown) hneed
    have hready := hout.ready
    rw [hout.lists_iff hends]
    rw [behind_eq_nil hnone] at hready ⊢
    exact hready.lists_nil
  | next hgrown hneed _ _ ih =>
    obtain ⟨r, hends, hout⟩ := h.returns (hsize ▸ hgrown) hneed
    rw [hout.lists_iff hends]
    exact ih hout.ready hout.size

end Runs

theorem RawListing.place_start (L : RawListing) (stat : List UInt8 → Option Stat) :
    Place L stat [] L.entries (L.fetch ⟨0, [], 0, defaultBufferSize, 0, 1⟩) :=
  place_fetch (d := ⟨0, [], 0, defaultBufferSize, 0, 1⟩) (Nat.le_refl _) Nat.one_pos

theorem RawListing.ready_start (L : RawListing) (stat : List UInt8 → Option Stat) :
    Ready L stat L.entries (L.fetch ⟨0, [], 0, defaultBufferSize, 0, 1⟩) :=
  .entries (L.place_start stat)

/-- `fdopendir` and then `readdir` again and again return every entry that is
not skipped, and then NULL, exactly if at every place of the scan the buffer
grows until the entries to be skipped and the next one to be returned are in
it together. -/
theorem readdir_enumerates_iff (L : RawListing) (stat : List UInt8 → Option Stat) :
    (∃ d, fdopendir (L.env stat) = .ok d ∧ Lists (L.env stat) stat L.entries d) ↔
      Enumerable stat defaultBufferSize L.entries := by
  have hopen : fdopendir (L.env stat) =
      .ok (L.fetch ⟨0, [], 0, defaultBufferSize, 0, 1⟩) := rfl
  have hready := RawListing.ready_start L stat
  constructor
  · rintro ⟨d, hd, hlists⟩
    cases hopen.symm.trans hd
    exact hready.enumerable hlists
  · intro henum
    exact ⟨_, hopen, hready.lists rfl henum⟩

/-- A directory of 16 files with names of 255 bytes. -/
def crowded : RawListing where
  entries := (List.range 16).map fun i =>
    ⟨UInt64.ofNat (i + 1), 0, 4, UInt8.ofNat (0x61 + i) :: List.replicate 254 0x61,
      by rw [List.length_cons, List.length_replicate]; decide⟩
  distinct := by decide

/-- All of them are removed after the directory is opened.  Their entries fill
the buffer, so that the first call never returns. -/
theorem readdir_hangs : ∃ d, fdopendir (crowded.env fun _ => none) = .ok d ∧
    ∀ fuel, readdir (crowded.env fun _ => none) fuel d = none := by
  refine ⟨_, rfl, fun fuel => ?_⟩
  rw [readdir_eq_run _ fuel none, Option.map_eq_none_iff, Option.eq_none_iff_forall_ne_some]
  intro r hrun
  have hserved := (crowded.ready_start fun _ => none).served (Loop.ends_iff_run.mpr ⟨fuel, hrun⟩)
  obtain ⟨size, hgrown, hneed⟩ := hserved
  rcases Relation.ReflTransGen.cases_head hgrown with rfl | ⟨mid, hgrowth, -⟩
  · revert hneed
    decide +kernel
  · obtain ⟨done, e, todo, heq, -, -, hlt, -⟩ := hgrowth
    have hmem : e ∈ crowded.entries := by
      rw [heq]
      exact List.mem_append_right _ List.mem_cons_self
    obtain ⟨i, -, rfl⟩ := List.mem_map.mp hmem
    rw [RawEntry.size, List.length_cons, List.length_replicate] at hlt
    exact absurd hlt (by decide)

/-! ## Listings without such entries -/

section Plain

variable {es : List RawEntry} (fuel : Nat)

/-- The next entry is in the buffer. -/
theorem Place.run_take (h : Place L stat [] (e :: todo) d) (hskip : e.skipped stat = false)
    (hleft : e.size ≤ d.bufferUsed - d.bufferProcessed) :
    ∃ d', Loop.run (turnErrno (L.env stat)) (fuel + 1) (errno, d) =
      some (.ok (some (e.dirent stat)), errno, d') ∧ Place L stat [] todo d' :=
  ⟨_, Loop.run_stop (turnErrno_take h hleft hskip) fuel, h.take hleft⟩

theorem Place.fetch {size : Nat} (h : Place L stat [] es d) (hle : d.bufferSize ≤ size) :
    Place L stat [] es (L.fetch { d with bufferSize := size }) := by
  have hafter : L.after d.cookie = es := h.after
  have hplace : Place L stat [] (L.after d.cookie) (L.fetch { d with bufferSize := size }) :=
    place_fetch (d := { d with bufferSize := size }) (Nat.le_trans h.size hle) h.dirent
  rwa [hafter] at hplace

/-- The next entry comes first in the buffer, or does so after a fetch into a
buffer that can hold it. -/
theorem Place.run_first (h : Place L stat [] (e :: todo) d) (hfirst : d.bufferProcessed = 0)
    (hskip : e.skipped stat = false) :
    ∃ d', Loop.run (turnErrno (L.env stat)) (fuel + 2) (errno, d) =
      some (.ok (some (e.dirent stat)), errno, d') ∧ Place L stat [] todo d' := by
  by_cases hleft : e.size ≤ d.bufferUsed - d.bufferProcessed
  · exact h.run_take (fuel + 1) hskip hleft
  · have hsize := h.size
    have hheader : Header.size ≤ d.bufferSize - d.bufferProcessed := by
      unfold Header.size
      unfold defaultBufferSize at hsize
      omega
    obtain ⟨size, hturn, hto, hgrow⟩ := h.cut errno (by omega)
    have hlarge := (le_growSize (Nat.lt_of_lt_of_le (by decide) hsize) e.size).2
    rw [← hgrow hheader] at hlarge
    have hfill := (h.fetch (h.le_grown hto)).left
    rw [total_cons] at hfill
    rw [Loop.run_next hturn]
    refine (h.fetch (h.le_grown hto)).run_take fuel hskip ?_
    rw [hfill]
    simp only [RawListing.fetch]
    omega

/-- Where no entry is skipped, a call returns the next one within three
turns. -/
theorem Place.run_plain (h : Place L stat [] es d) (hes : ∀ e ∈ es, e.skipped stat = false)
    (errno : Option Errno) :
    ∃ d', Loop.run (turnErrno (L.env stat)) (fuel + 3) (errno, d) =
      some (.ok (es.head?.map (RawEntry.dirent stat)), errno, d') ∧ Place L stat [] es.tail d' := by
  cases es with
  | nil =>
    by_cases hlt : d.bufferUsed < d.bufferSize
    · exact ⟨d, Loop.run_stop (turnErrno_end h hlt) _, h⟩
    · have hleft := h.left
      rw [total_nil] at hleft
      have hfetch := h.fetch (Nat.le_refl _)
      have hempty : (L.fetch d).bufferUsed < (L.fetch d).bufferSize := by
        have hafter : L.after d.cookie = [] := h.after
        simp only [RawListing.fetch, hafter, rawBytes, List.flatMap_nil, List.take_nil,
          List.length_nil]
        exact Nat.lt_of_lt_of_le (by decide) h.size
      refine ⟨L.fetch d, ?_, hfetch⟩
      rw [Loop.run_next (turnErrno_refill (by unfold Header.size; omega) hlt),
        Loop.run_stop (turnErrno_end hfetch hempty)]
      rfl
  | cons e todo =>
    have hskip := hes e List.mem_cons_self
    by_cases hleft : e.size ≤ d.bufferUsed - d.bufferProcessed
    · exact h.run_take (fuel + 2) hskip hleft
    · obtain ⟨size, hturn, hto, -⟩ := h.cut errno (by omega)
      rw [Loop.run_next hturn]
      exact (h.fetch (h.le_grown hto)).run_first fuel rfl hskip

theorem readdirs_plain (h : Place L stat [] es d) (hes : ∀ e ∈ es, e.skipped stat = false)
    (n : Nat) : readdirs (L.env stat) (fuel + 3) n d =
      some ((List.range n).map fun i => .ok (es[i]?.map (RawEntry.dirent stat))) := by
  induction n generalizing es d with
  | zero => rfl
  | succ n ih =>
    obtain ⟨d', hrun, hplace⟩ := h.run_plain fuel hes none
    rw [readdirs_succ, hrun, Option.bind_some, ih hplace fun e he => hes e (List.mem_of_mem_tail he),
      Option.map_some, List.range_succ_eq_map, List.map_cons, List.map_map, List.head?_eq_getElem?]
    simp [Function.comp_def]

end Plain

/-- An entry that is not skipped, as one that might be. -/
def Entry.raw (e : Entry) : RawEntry := ⟨e.next, e.ino, e.type, e.name, e.fits⟩

def Listing.raw (L : Listing) : RawListing where
  entries := L.entries.map Entry.raw
  distinct := by
    rw [List.map_map]
    exact L.distinct

theorem rawBytes_raw (es : List Entry) : rawBytes (es.map Entry.raw) = serialise es := by
  rw [rawBytes, List.flatMap_map]
  rfl

theorem after_raw (L : Listing) (cookie : UInt64) :
    L.raw.after cookie = (L.after cookie).map Entry.raw := by
  have hfollowing : ∀ es : List Entry, ((es.map Entry.raw).dropWhile fun e =>
      decide (e.next ≠ cookie)).drop 1 = (following cookie es).map Entry.raw := by
    intro es
    induction es with
    | nil => rfl
    | cons e es ih =>
      rw [List.map_cons, following]
      by_cases hnext : e.next = cookie
      · rw [List.dropWhile_cons_of_neg (by simp [Entry.raw, hnext]), if_pos hnext]
        rfl
      · rw [List.dropWhile_cons_of_pos (by simp [Entry.raw, hnext]), if_neg hnext, ih]
  unfold RawListing.after Listing.after
  split
  · rfl
  · exact hfollowing L.entries

/-- The two models of a host agree where no entry is skipped. -/
theorem env_raw (L : Listing) (stat : List UInt8 → Stat) :
    L.raw.env (fun name => some (stat name)) = L.env stat := by
  simp only [RawListing.env, Listing.env, after_raw, rawBytes_raw]

theorem Entry.raw_not_skipped (e : Entry) (stat : List UInt8 → Stat) :
    e.raw.skipped (fun name => some (stat name)) = false := by
  have hhollow : e.raw.hollow = false :=
    decide_eq_false (not_or.mpr ⟨e.nonempty, e.nulFree⟩)
  simp [RawEntry.skipped, RawEntry.gone, hhollow]

theorem Entry.dirent_raw (e : Entry) (stat : List UInt8 → Stat) :
    e.raw.dirent (fun name => some (stat name)) = e.dirent stat := by
  unfold RawEntry.dirent RawEntry.lookedUp Entry.dirent
  by_cases hino : e.ino = 0 ∧ e.name ≠ [0x2E, 0x2E]
  · rw [if_pos hino, decide_eq_true (show e.raw.ino = 0 ∧ e.raw.name ≠ _ from hino)]
    rfl
  · rw [if_neg hino, decide_eq_false (show ¬ (e.raw.ino = 0 ∧ e.raw.name ≠ _) from hino)]
    rfl

/-- `fdopendir` and then `readdir` again and again: every entry comes once, in
order and with its name, and then NULL.  Three turns of the loop are enough
for every call. -/
theorem readdir_enumerates (L : Listing) (stat : List UInt8 → Stat) (fuel n : Nat) :
    ∃ d, fdopendir (L.env stat) = .ok d ∧ readdirs (L.env stat) (fuel + 3) n d =
      some ((List.range n).map fun i => .ok ((L.entries[i]?).map (Entry.dirent stat))) := by
  rw [← env_raw]
  refine ⟨L.raw.fetch ⟨0, [], 0, defaultBufferSize, 0, 1⟩, rfl, ?_⟩
  have hplain : ∀ e ∈ L.raw.entries, e.skipped (fun name => some (stat name)) = false := by
    intro e he
    obtain ⟨e, -, rfl⟩ := List.mem_map.mp he
    exact e.raw_not_skipped stat
  rw [readdirs_plain fuel (L.raw.place_start _) hplain]
  simp only [Listing.raw, List.getElem?_map, Option.map_map]
  congr 3
  funext i
  exact congrArg _ (congrArg (Option.map · _) (funext fun e => e.dirent_raw stat))

theorem RawEntry.dName_dirent (stat : List UInt8 → Option Stat) (e : RawEntry) :
    (e.dirent stat).dName = e.name := by
  unfold RawEntry.dirent
  split <;> rfl

end WasiLibc.Directory.Buffer

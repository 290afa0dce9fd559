import WasiLibc.File.Position

/-!
# WasiLibc.File.SharedOffset

Reads and writes in a row, with no seek between them.  `file->offset` counts
the bytes of both directions, but each stream advances on its own traffic
only: after the other direction has moved `n` bytes a stream that is already
open lags `n` bytes behind (`lag`).

`shared_offset_iff` draws the consequence for whole sequences of calls.
-/

namespace WasiLibc.File

/-- The direction of a transfer. -/
inductive Dir where
  | read
  | write
  deriving DecidableEq, Repr

/-- The number of bytes that a call reports as moved. -/
def Reply.length : Reply → Nat
  | .moved _ bytes => bytes.length
  | _ => 0

def Reply.failed : Reply → Bool
  | .error _ => true
  | _ => false

namespace Description

/-- The direction of a call that transfers. -/
def Call.dir : Call → Option Dir
  | .read .. => some .read
  | .write .. => some .write
  | _ => none

/-- The number of bytes that the host moves in a call. -/
def Call.moves : Call → Nat
  | .read _ _ (.moved n _) => n
  | .write _ _ (.moved n _) => n
  | _ => 0

/-- The bytes moved by a sequence of calls. -/
def total (calls : List Call) : Nat := (calls.map Call.moves).sum

/-! ## The lag of a stream -/

/-- How far the stream of direction `dir` is behind the offset after `calls`
on a description whose streams were closed; `none` while it is not open. -/
def lag (dir : Dir) (calls : List Call) : Option Nat :=
  calls.foldl (fun l c => if c.dir = some dir then some (l.getD 0) else l.map (· + c.moves)) none

@[simp] theorem lag_nil (dir : Dir) : lag dir [] = none := rfl

theorem lag_concat (dir : Dir) (calls : List Call) (c : Call) :
    lag dir (calls ++ [c]) =
      if c.dir = some dir then some ((lag dir calls).getD 0)
      else (lag dir calls).map (· + c.moves) := by
  simp [lag]

/-- No bytes moved in the other direction since the stream was opened. -/
def Level (dir : Dir) (calls : List Call) : Prop :=
  ∀ c₁ c₂, [c₁, c₂].Sublist calls → c₁.dir = some dir → c₂.dir ≠ some dir → c₂.moves = 0

theorem pair_sublist_concat {α : Type*} {a b c : α} {l : List α} :
    [a, b].Sublist (l ++ [c]) ↔ [a, b].Sublist l ∨ (a ∈ l ∧ b = c) := by
  rw [List.sublist_append_iff]
  constructor
  · rintro ⟨l₁, l₂, h, h₁, h₂⟩
    match l₁, l₂, h with
    | [], _, rfl => exact absurd h₂.length_le (by simp)
    | [_], [_], rfl => exact .inr ⟨List.singleton_sublist.mp h₁, by simpa using h₂⟩
    | [_, _], [], rfl => exact .inl h₁
  · rintro (h | ⟨ha, rfl⟩)
    · exact ⟨[a, b], [], rfl, h, List.nil_sublist _⟩
    · exact ⟨[a], [b], rfl, List.singleton_sublist.mpr ha, List.Sublist.refl _⟩

theorem lag_eq_none_iff (dir : Dir) (calls : List Call) :
    lag dir calls = none ↔ ∀ c ∈ calls, c.dir ≠ some dir := by
  induction calls using List.reverseRecOn with
  | nil => simp
  | append_singleton calls c ih =>
    rw [lag_concat]
    by_cases hc : c.dir = some dir
    · simp only [if_pos hc, reduceCtorEq, false_iff, not_forall]
      exact ⟨c, by simp, by simp [hc]⟩
    · rw [if_neg hc, Option.map_eq_none_iff, ih]
      simp [or_imp, forall_and, hc]

/-- A stream is not behind exactly when no bytes moved in the other direction
since it was opened. -/
theorem lag_getD_eq_zero_iff (dir : Dir) (calls : List Call) :
    (lag dir calls).getD 0 = 0 ↔ Level dir calls := by
  induction calls using List.reverseRecOn with
  | nil => simp [Level]
  | append_singleton calls c ih =>
    rw [lag_concat]
    have hlevel : Level dir (calls ++ [c]) ↔ Level dir calls ∧
        (c.dir ≠ some dir → (∃ c₁ ∈ calls, c₁.dir = some dir) → c.moves = 0) := by
      unfold Level
      simp only [pair_sublist_concat]
      constructor
      · intro h
        refine ⟨fun c₁ c₂ hs => h c₁ c₂ (.inl hs), ?_⟩
        rintro hc ⟨c₁, hmem, hdir⟩
        exact h c₁ c (.inr ⟨hmem, rfl⟩) hdir hc
      · rintro ⟨h, hlast⟩ c₁ c₂ (hs | ⟨hmem, rfl⟩) h₁ h₂
        · exact h c₁ c₂ hs h₁ h₂
        · exact hlast h₂ ⟨c₁, hmem, h₁⟩
    rw [hlevel, ← ih]
    by_cases hc : c.dir = some dir
    · simp [hc]
    · cases hl : lag dir calls with
      | none =>
        have hno := (lag_eq_none_iff dir calls).mp hl
        simp only [if_neg hc, Option.map_none, Option.getD_none, true_and, true_iff]
        rintro - ⟨c₁, hmem, hdir⟩
        exact absurd hdir (hno c₁ hmem)
      | some n =>
        have hsome : ∃ c₁ ∈ calls, c₁.dir = some dir := by
          by_contra hno
          push Not at hno
          rw [(lag_eq_none_iff dir calls).mpr hno] at hl
          cases hl
        simp only [if_neg hc, Option.map_some, Option.getD_some, Nat.add_eq_zero_iff,
          and_congr_right_iff]
        exact fun _ => ⟨fun h _ _ => h, fun h => h hc hsome⟩

/-! ## Following a run -/

/-- The description `d` after `calls` from offset `start` with closed
streams: the offset has counted every byte, and an open stream that has not
ended is behind it by its lag. -/
structure Follows (start : Nat) (calls : List Call) (d : Description) : Prop where
  append : d.file.append = false
  offset : d.file.offset = start + total calls
  read : d.file.read.isSome = (lag .read calls).isSome
  write : d.file.write.isSome = (lag .write calls).isSome
  readPos : ∀ s ∈ d.file.read, s.done = false →
    s.pos + (lag .read calls).getD 0 = d.file.offset
  writePos : ∀ s ∈ d.file.write, s.done = false →
    ∃ p, s.cursor = .at p ∧ p + (lag .write calls).getD 0 = d.file.offset

variable {d d' : Description} {start : Nat} {calls : List Call}

theorem total_concat (calls : List Call) (c : Call) :
    total (calls ++ [c]) = total calls + c.moves := by
  simp [total]

/-- The stream that a read uses is behind the offset by its lag. -/
theorem Follows.readStream (hf : Follows start calls d) (hdone : d.readStream.done = false) :
    d.readStream.pos + (lag .read calls).getD 0 = d.file.offset := by
  unfold Description.readStream at *
  cases hr : d.file.read with
  | some s => exact hf.readPos s (by simp [hr]) (by simpa [hr] using hdone)
  | none =>
    have hn : lag .read calls = none := by simpa [hr] using hf.read
    simp [hn]

theorem Follows.writeStream (hf : Follows start calls d) (hdone : d.writeStream.done = false) :
    ∃ p, d.writeStream.cursor = .at p ∧ p + (lag .write calls).getD 0 = d.file.offset := by
  unfold Description.writeStream at *
  cases hw : d.file.write with
  | some s => exact hf.writePos s (by simp [hw]) (by simpa [hw] using hdone)
  | none =>
    have hn : lag .write calls = none := by simpa [hw] using hf.write
    exact ⟨d.file.offset, by simp [hf.append], by simp [hn]⟩

/-- What a successful transfer shows to the caller and to us. -/
structure Transfers (start : Nat) (calls : List Call) (d : Description) (c : Call) (dir : Dir)
    (reply : Reply) (d' : Description) : Prop where
  follows : Follows start (calls ++ [c]) d'
  length : reply.length = c.moves
  moved : 0 < c.moves → ∃ pos bytes, reply = .moved pos bytes
  pos : ∀ pos bytes, reply = .moved pos bytes →
    0 < c.moves ∧ pos + (lag dir calls).getD 0 = d.file.offset

/-- The reply to a call that moved `n` bytes. -/
theorem movedReply_spec (pos : Nat) {n : Nat} {bytes : List UInt8} (hlen : bytes.length = n) :
    (movedReply pos bytes).length = n ∧
      (0 < n → ∃ pos' bytes', movedReply pos bytes = .moved pos' bytes') ∧
      ∀ pos' bytes', movedReply pos bytes = .moved pos' bytes' → 0 < n ∧ pos' = pos := by
  unfold movedReply
  split
  case isTrue h =>
    subst h
    subst hlen
    exact ⟨rfl, by simp, by simp⟩
  case isFalse h =>
    have hpos : 0 < bytes.length := List.length_pos_iff.mpr h
    refine ⟨hlen, fun _ => ⟨pos, bytes, rfl⟩, ?_⟩
    rintro pos' bytes' ⟨⟩
    exact ⟨by omega, rfl⟩

theorem step_read (hf : Follows start calls d) {len : Nat} {opened : Except Errno Unit}
    {t : Transfer} {reply : Reply} (hstep : d.step (.read len opened t) = some (reply, d'))
    (hok : reply.failed = false) :
    Transfers start calls d (.read len opened t) .read reply d' := by
  simp only [step] at hstep
  rcases fileGetReadStream_cases d opened with hs | ⟨e, hs⟩
  · rw [hs] at hstep
    obtain ⟨n, dropped, rfl, hdone, -, -, hbound, rfl, rfl⟩ | ⟨eof, rfl, -, rfl, rfl⟩ |
      ⟨e, rfl, rfl, -⟩ := wasilibcRead_cases hstep
    · have hpos := hf.readStream hdone
      have hw := hf.writePos
      obtain ⟨hlen, hmoved, hat⟩ := movedReply_spec d.readStream.pos (length_slice hbound)
      refine ⟨⟨hf.append, ?_, ?_, ?_, ?_, ?_⟩, hlen, hmoved, fun pos bytes h => ?_⟩
      · simp only [total_concat, Call.moves, hf.offset]; omega
      · simp [lag_concat, Call.dir]
      · simpa [lag_concat, Call.dir] using hf.write
      · intro s hs' _
        cases hs'
        simp only [lag_concat, Call.dir, if_true, Option.getD_some]
        omega
      · intro s hs' hd
        obtain ⟨p, hp, hlag⟩ := hw s hs' hd
        have hsome : (lag .write calls).isSome := by
          rw [← hf.write, Option.isSome_iff_exists]; exact ⟨s, hs'⟩
        obtain ⟨l, hl⟩ := Option.isSome_iff_exists.mp hsome
        refine ⟨p, hp, ?_⟩
        simp only [lag_concat, Call.dir, Call.moves, hl, Option.getD_some] at hlag ⊢
        simp; omega
      · obtain ⟨h0, rfl⟩ := hat pos bytes h
        exact ⟨h0, hpos⟩
    · rcases endedReply_cases eof with he | ⟨e, he⟩
      · rw [he]
        refine ⟨⟨hf.append, ?_, ?_, ?_, ?_, ?_⟩, rfl, by simp [Call.moves], by simp⟩
        · simp [total_concat, Call.moves, hf.offset]
        · simp [lag_concat, Call.dir]
        · simpa [lag_concat, Call.dir] using hf.write
        · intro s hs' hd
          cases hs'
          cases hd
        · intro s hs' hd
          obtain ⟨p, hp, hlag⟩ := hf.writePos s hs' hd
          exact ⟨p, hp, by simpa [lag_concat, Call.dir, Call.moves] using hlag⟩
      · rw [he] at hok
        cases hok
    · cases hok
  · rw [hs] at hstep
    cases hstep
    cases hok

theorem step_write (hf : Follows start calls d) {bytes : List UInt8} {opened : Except Errno Unit}
    {t : Transfer} {reply : Reply} (hstep : d.step (.write bytes opened t) = some (reply, d'))
    (hok : reply.failed = false) :
    Transfers start calls d (.write bytes opened t) .write reply d' := by
  simp only [step] at hstep
  rcases fileGetWriteStream_cases d opened with hs | ⟨e, hs⟩
  · rw [hs] at hstep
    obtain ⟨n, dropped, rfl, hdone, hle, -, rfl, rfl⟩ | ⟨eof, rfl, rfl, rfl⟩ | ⟨e, n, rfl, rfl⟩ :=
      wasilibcWrite_cases hstep
    · obtain ⟨p, hcur, hpos⟩ := hf.writeStream hdone
      have hr := hf.readPos
      obtain ⟨hlen, hmoved, hat⟩ := movedReply_spec
        (d.writeStream.cursor.position d.contents.length)
        (show (bytes.take n).length = n by rw [List.length_take]; omega)
      rw [hcur] at hat hmoved hlen ⊢
      refine ⟨⟨hf.append, ?_, ?_, ?_, ?_, ?_⟩, hlen, hmoved, fun pos bytes h => ?_⟩
      · simp only [total_concat, Call.moves, hf.offset]; omega
      · simpa [lag_concat, Call.dir] using hf.read
      · simp [lag_concat, Call.dir]
      · intro s hs' hd
        have hlag := hr s hs' hd
        have hsome : (lag .read calls).isSome := by
          rw [← hf.read, Option.isSome_iff_exists]; exact ⟨s, hs'⟩
        obtain ⟨l, hl⟩ := Option.isSome_iff_exists.mp hsome
        simp only [lag_concat, Call.dir, Call.moves, hl, Option.getD_some] at hlag ⊢
        simp; omega
      · intro s hs' _
        cases hs'
        refine ⟨p + n, rfl, ?_⟩
        simp only [lag_concat, Call.dir, if_true, Option.getD_some]
        omega
      · obtain ⟨h0, rfl⟩ := hat pos bytes h
        exact ⟨h0, hpos⟩
    · rcases endedReply_cases eof with he | ⟨e, he⟩
      · rw [he]
        refine ⟨⟨hf.append, ?_, ?_, ?_, ?_, ?_⟩, rfl, by simp [Call.moves], by simp⟩
        · simp [total_concat, Call.moves, hf.offset]
        · simpa [lag_concat, Call.dir] using hf.read
        · simp [lag_concat, Call.dir]
        · intro s hs' hd
          have hlag := hf.readPos s hs' hd
          simpa [lag_concat, Call.dir, Call.moves] using hlag
        · intro s hs' hd
          cases hs'
          cases hd
      · rw [he] at hok
        cases hok
    · cases hok
  · rw [hs] at hstep
    cases hstep
    cases hok

/-- One successful transfer. -/
theorem step_transfer (hf : Follows start calls d) {c : Call} {dir : Dir}
    (hdir : c.dir = some dir) {reply : Reply} (hstep : d.step c = some (reply, d'))
    (hok : reply.failed = false) : Transfers start calls d c dir reply d' := by
  cases c with
  | read len opened t => cases hdir; exact step_read hf hstep hok
  | write bytes opened t => cases hdir; exact step_write hf hstep hok
  | _ => cases hdir

/-! ## Sequences of transfers -/

/-- The replies tell of one shared offset: each transfer happens at `start`
plus the bytes that were moved before it. -/
def Shared (start : Nat) (replies : List Reply) : Prop :=
  ∀ i pos bytes, replies[i]? = some (.moved pos bytes) →
    pos = start + ((replies.take i).map Reply.length).sum

theorem shared_cons {start : Nat} {r : Reply} {rs : List Reply} :
    Shared start (r :: rs) ↔
      (∀ pos bytes, r = .moved pos bytes → pos = start) ∧ Shared (start + r.length) rs := by
  unfold Shared
  constructor
  · intro h
    refine ⟨fun pos bytes hr => by simpa using h 0 pos bytes (by simp [hr]), ?_⟩
    intro i pos bytes hi
    have := h (i + 1) pos bytes (by simpa using hi)
    simpa [Nat.add_assoc] using this
  · rintro ⟨h0, h⟩ i pos bytes hi
    cases i with
    | zero => simpa using h0 pos bytes (by simpa using hi)
    | succ i =>
      have := h i pos bytes (by simpa using hi)
      simpa [Nat.add_assoc] using this

/-- Every transfer that moves bytes uses a level stream. -/
def AllLevel (before calls : List Call) : Prop :=
  ∀ a c b, calls = a ++ c :: b → 0 < c.moves → ∀ dir, c.dir = some dir → Level dir (before ++ a)

theorem allLevel_cons {before calls : List Call} {c : Call} :
    AllLevel before (c :: calls) ↔
      (0 < c.moves → ∀ dir, c.dir = some dir → Level dir before) ∧
        AllLevel (before ++ [c]) calls := by
  unfold AllLevel
  constructor
  · intro h
    refine ⟨fun hm dir hdir => by simpa using h [] c calls rfl hm dir hdir, ?_⟩
    intro a c' b hcalls hm dir hdir
    simpa using h (c :: a) c' b (by simp [hcalls]) hm dir hdir
  · rintro ⟨h0, h⟩ a c' b hcalls hm dir hdir
    cases a with
    | nil =>
      obtain ⟨rfl, -⟩ := List.cons.inj hcalls
      simpa using h0 hm dir hdir
    | cons x a =>
      obtain ⟨rfl, htail⟩ := List.cons.inj hcalls
      simpa using h a c' b htail hm dir hdir

theorem shared_iff_allLevel {before calls : List Call} {d d' : Description}
    {replies : List Reply} (hf : Follows start before d)
    (hrun : d.run calls = some (replies, d')) (hio : ∀ c ∈ calls, c.dir ≠ none)
    (hok : ∀ r ∈ replies, r.failed = false) :
    Shared (start + total before) replies ↔ AllLevel before calls := by
  induction calls generalizing before d replies with
  | nil =>
    cases hrun
    simp [Shared, AllLevel]
  | cons c calls ih =>
    simp only [run, Option.bind_eq_bind, Option.bind_eq_some_iff] at hrun
    obtain ⟨⟨r, d₁⟩, hstep, ⟨rs, d₂⟩, hrest, heq⟩ := hrun
    cases heq
    obtain ⟨dir, hdir⟩ := Option.ne_none_iff_exists'.mp (hio c (by simp))
    have ht := step_transfer hf hdir hstep (hok r (by simp))
    have htail := ih ht.follows hrest (fun c hc => hio c (by simp [hc]))
      (fun r hr => hok r (by simp [hr]))
    rw [shared_cons, allLevel_cons, ← htail, total_concat, ht.length, Nat.add_assoc]
    refine and_congr_left fun _ => ?_
    -- the position of this transfer is right exactly if the stream is not behind
    constructor
    · intro hat hm dir' hdir'
      obtain rfl : dir = dir' := by simpa [hdir] using hdir'
      obtain ⟨pos, bytes, rfl⟩ := ht.moved hm
      have hlag := (ht.pos pos bytes rfl).2
      have hpos := hat pos bytes rfl
      rw [← lag_getD_eq_zero_iff]
      have := hf.offset
      omega
    · rintro hlevel pos bytes rfl
      obtain ⟨hm, hlag⟩ := ht.pos pos bytes rfl
      have h0 := (lag_getD_eq_zero_iff dir before).mpr (hlevel hm dir hdir)
      have := hf.offset
      omega

/-- No call moves bytes in a direction that was in use before bytes moved in
the other direction. -/
def NoReturn (calls : List Call) : Prop :=
  ∀ c₁ c₂ c₃, [c₁, c₂, c₃].Sublist calls → c₁.dir = c₃.dir → c₂.dir ≠ c₃.dir →
    c₂.moves = 0 ∨ c₃.moves = 0

theorem allLevel_nil_iff {calls : List Call} (hio : ∀ c ∈ calls, c.dir ≠ none) :
    AllLevel [] calls ↔ NoReturn calls := by
  constructor
  · intro h c₁ c₂ c₃ hs h₁ h₂
    obtain ⟨a, b, rfl, hs₂, hc⟩ := List.append_sublist_iff.mp
      (show ([c₁, c₂] ++ [c₃]).Sublist calls from hs)
    obtain ⟨x, y, rfl⟩ := List.append_of_mem (List.singleton_sublist.mp hc)
    obtain ⟨dir, hdir⟩ := Option.ne_none_iff_exists'.mp (hio c₃ (by simp))
    rcases Nat.eq_zero_or_pos c₃.moves with h0 | hm
    · exact .inr h0
    · have hlevel := h (a ++ x) c₃ y (by simp) hm dir hdir
      exact .inl (hlevel c₁ c₂ (by simpa using hs₂.trans (List.sublist_append_left a x))
        (h₁.trans hdir) (hdir ▸ h₂))
  · rintro h a c b rfl hm dir hdir c₁ c₂ hs h₁ h₂
    have hs3 : ([c₁, c₂] ++ [c]).Sublist (a ++ c :: b) :=
      (show [c₁, c₂].Sublist a from by simpa using hs).append (by simp)
    have := h c₁ c₂ c hs3 (h₁.trans hdir.symm) (hdir ▸ h₂)
    omega

/-- Reads and writes in a row, on a description without `O_APPEND` whose
streams are not open (just opened, or just sought), share one file offset
exactly when no call goes back to a direction that was used before bytes
moved in the other one. -/
theorem shared_offset_iff {d d' : Description} {calls : List Call} {replies : List Reply}
    (happ : d.file.append = false) (hr : d.file.read = none) (hw : d.file.write = none)
    (hrun : d.run calls = some (replies, d')) (hio : ∀ c ∈ calls, c.dir ≠ none)
    (hok : ∀ r ∈ replies, r.failed = false) :
    Shared d.file.offset replies ↔ NoReturn calls := by
  have hf : Follows d.file.offset [] d :=
    ⟨happ, rfl, by simp [hr], by simp [hw], by simp [hr], by simp [hw]⟩
  rw [← allLevel_nil_iff hio]
  exact shared_iff_allLevel hf hrun hio hok

/-- Writing after reading, once, is fine. -/
theorem shared_offset_iff_read_write :
    Shared 0 [.moved 0 [0, 1, 2], .moved 3 [70, 71]] := by
  have hrun : run ⟨addFile false, [0, 1, 2, 3, 4, 5]⟩
      [.read 3 (.ok ()) (.moved 3 false), .write [70, 71] (.ok ()) (.moved 2 false)] =
      some ([.moved 0 [0, 1, 2], .moved 3 [70, 71]],
        ⟨⟨5, false, some ⟨3, false⟩, some ⟨.at 5, false⟩⟩, [0, 1, 2, 70, 71, 5]⟩) := by decide
  refine (shared_offset_iff rfl rfl rfl hrun (by simp [Call.dir]) (by decide)).mpr ?_
  intro c₁ c₂ c₃ hs
  exact absurd hs.length_le (by simp)

/-- Read 3, write 2, read: the last read continues at 3, where the first
one ended, and returns what was just written. -/
theorem read_write_read_not_shared :
    (run ⟨addFile false, [0, 1, 2, 3, 4, 5, 6, 7]⟩
        [.read 3 (.ok ()) (.moved 3 false), .write [70, 71] (.ok ()) (.moved 2 false),
          .read 2 (.ok ()) (.moved 2 false)]).map Prod.fst =
      some [.moved 0 [0, 1, 2], .moved 3 [70, 71], .moved 3 [70, 71]] ∧
    ¬ Shared 0 [.moved 0 [0, 1, 2], .moved 3 [70, 71], .moved 3 [70, 71]] := by
  refine ⟨by decide, fun h => ?_⟩
  have := h 2 3 [70, 71] rfl
  simp [Reply.length] at this

end Description

end WasiLibc.File

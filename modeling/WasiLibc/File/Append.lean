import WasiLibc.File.Position

/-!
# WasiLibc.File.Append

`O_APPEND` and the place of a write.  `fcntl(F_SETFL)` changes the flag that
`F_GETFL` reports, but not the stream that an earlier write has opened, and
the stream of a descriptor without `O_APPEND` goes on from where it stands,
whatever happens to the offset.

`writes_in_place_iff` follows a whole run: every write is where the flag and
the offset say exactly as long as no call changes the flag, moves the offset
or moves the stream alone while a stream is open (`Steady`).
-/

namespace WasiLibc.File.Description

/-- Where a write is to store its bytes: at the end of the file if `F_GETFL`
reports `O_APPEND`, and at the offset otherwise. -/
def writeTarget (d : Description) : Nat :=
  if d.file.append then d.contents.length else d.file.offset

/-- A write that succeeds now, whatever has become of the contents of the
file, stores its bytes at the target. -/
def InPlace (d : Description) : Prop :=
  ∀ contents bytes opened t pos stored d',
    step { d with contents := contents } (.write bytes opened t) = some (.moved pos stored, d') →
    pos = writeTarget { d with contents := contents } ∧ d'.contents = store contents pos stored

/-- A stream for writing is open and has not ended. -/
def Writing (d : Description) : Prop := ∃ s ∈ d.file.write, s.done = false

/-- A call gets its stream: it is open, or the host opens it. -/
def Gets {α : Type} (stream : Option α) (opened : Except Errno Unit) : Prop :=
  stream = none → opened = .ok ()

/-- A call that leaves the stream for writing where the flag and the offset
say.  While one is open, `F_SETFL` does not change `O_APPEND`; and without
`O_APPEND` no read moves bytes, no write fails after some of its bytes were
taken, and `SEEK_END` finds the offset at the end or reopens the streams. -/
def Steady (d : Description) : Call → Prop
  | .read _ opened (.moved n _) =>
    d.Writing → d.file.append = false → Gets d.file.read opened → n = 0
  | .write _ opened (.failed _ n) =>
    d.writeStream.done = false → d.file.append = false → Gets d.file.write opened → n = 0
  | .lseek offset whence blocked stat =>
    d.Writing → d.file.append = false → d.CachesSize whence blocked stat →
      d.file.offset = d.contents.length ∨
        (0 ≤ d.seekTarget offset whence ∧ d.seekTarget offset whence ≠ d.contents.length)
  | .setfl append => d.Writing → append = d.file.append
  | _ => True

/-! ## States -/

/-- The cursor of a stream that is opened now. -/
def openCursor (f : FileT) : Cursor := if f.append then .append else .at f.offset

variable {d d' : Description}

variable {opened : Except Errno Unit} {t : Transfer} {reply : Reply}

theorem moved_of_step_write {bytes : List UInt8}
    {pos : Nat} {stored : List UInt8}
    (h : d.step (.write bytes opened t) = some (.moved pos stored, d')) :
    d.writeStream.done = false ∧ pos = d.writeStream.cursor.position d.contents.length ∧
      d'.contents = store d.contents pos stored := by
  simp only [step] at h
  rcases fileGetWriteStream_cases d opened with hs | ⟨e, hs⟩
  · rw [hs] at h
    obtain ⟨n, dropped, -, hdone, -, -, hreply, rfl⟩ | ⟨eof, -, hreply, -⟩ | ⟨e, n, -, hreply⟩ :=
      wasilibcWrite_cases h
    · unfold movedReply at hreply
      split at hreply
      case isTrue => cases hreply
      case isFalse =>
        cases hreply
        exact ⟨hdone, rfl, rfl⟩
    · rcases endedReply_cases eof with he | ⟨e, he⟩ <;> rw [he] at hreply <;> cases hreply
    · cases hreply
  · rw [hs] at h
    cases h

/-- Writes are in place if the stream stands where one that is opened now
would stand. -/
theorem inPlace_iff (d : Description) :
    d.InPlace ↔ ∀ s ∈ d.file.write, s.done = true ∨ s.cursor = openCursor d.file := by
  constructor
  · intro h s hs
    have hstream : ∀ contents, writeStream { d with contents := contents } = s := by
      intro contents
      rw [Option.mem_def] at hs
      simp only [writeStream, hs, Option.getD_some]
    refine or_iff_not_imp_left.mpr fun hdone => ?_
    -- a write of one byte, after any change of the contents
    have hat : ∀ contents, s.cursor.position contents.length =
        writeTarget { d with contents := contents } := by
      intro contents
      have hnext : NextWriteAt { d with contents := contents }
          (writeTarget { d with contents := contents }) := by
        intro bytes opened t reply d' hstep
        cases reply with
        | moved pos stored => exact (h contents bytes opened t pos stored d' hstep).1
        | zero => trivial
        | offset n => trivial
        | done => trivial
        | error e => trivial
      have hserves := (nextWriteAt_iff _ _).mp hnext
      rw [hstream] at hserves
      exact hserves.resolve_left hdone
    unfold openCursor
    cases hc : s.cursor with
    | «at» pos =>
      cases happ : d.file.append with
      | true =>
        have := hat (List.replicate (pos + 1) 0)
        simp [hc, Cursor.position, writeTarget, happ] at this
      | false =>
        have := hat d.contents
        simp only [hc, Cursor.position, writeTarget, happ, Bool.false_eq_true, if_false] at this
        simp [this]
    | append =>
      cases happ : d.file.append with
      | true => rfl
      | false =>
        have := hat (List.replicate (d.file.offset + 1) 0)
        simp [hc, Cursor.position, writeTarget, happ] at this
  · intro h contents bytes opened t pos stored d' hstep
    obtain ⟨hdone, hpos, hcontents⟩ := moved_of_step_write hstep
    refine ⟨?_, hcontents⟩
    have hcursor : (writeStream { d with contents := contents }).cursor = openCursor d.file := by
      unfold writeStream at hdone ⊢
      cases hs : d.file.write with
      | none => rfl
      | some s =>
        simp only [hs, Option.getD_some] at hdone ⊢
        exact (h s hs).resolve_left (by simp [hdone])
    rw [hpos, hcursor]
    unfold openCursor writeTarget
    cases d.file.append <;> rfl

theorem openCursor_eq_iff {f f' : FileT} :
    openCursor f' = openCursor f ↔
      f'.append = f.append ∧ (f.append = false → f'.offset = f.offset) := by
  unfold openCursor
  cases f'.append <;> cases f.append <;> simp

/-- A call that leaves the stream alone. -/
theorem inPlace_of_write_eq (h : d.InPlace) (hwrite : d'.file.write = d.file.write) :
    d'.InPlace ↔ (d.Writing → d'.file.append = d.file.append ∧
      (d.file.append = false → d'.file.offset = d.file.offset)) := by
  rw [inPlace_iff] at h ⊢
  rw [hwrite, ← openCursor_eq_iff]
  constructor
  · rintro h' ⟨s, hs, hdone⟩
    have hcursor := (h s hs).resolve_left (by simp [hdone])
    exact ((h' s hs).resolve_left (by simp [hdone])).symm.trans hcursor
  · intro h' s hs
    rcases h s hs with hdone | hcursor
    · exact .inl hdone
    · cases hdone : s.done with
      | true => exact .inl rfl
      | false => exact .inr (hcursor.trans (h' ⟨s, hs, hdone⟩).symm)

theorem InPlace.of_file_eq (h : d.InPlace) (hfile : d'.file = d.file) : d'.InPlace := by
  rw [inPlace_iff] at h ⊢
  rwa [hfile]

theorem inPlace_of_none (h : d.file.write = none) : d.InPlace := by
  rw [inPlace_iff, h]
  intro s hs
  cases hs

theorem InPlace.writeStream (h : d.InPlace) :
    d.writeStream.done = true ∨ d.writeStream.cursor = openCursor d.file := by
  unfold Description.writeStream
  cases hs : d.file.write with
  | none => exact .inr rfl
  | some s => exact (inPlace_iff d).mp h s hs

/-! ## Steps -/

theorem gets_read_iff :
    Gets d.file.read opened ↔ fileGetReadStream d.file opened = .ok d.readStream := by
  unfold Gets fileGetReadStream readStream
  cases d.file.read <;> cases opened <;> simp [bind, Except.bind, pure, Except.pure]

theorem gets_write_iff :
    Gets d.file.write opened ↔ fileGetWriteStream d.file opened = .ok d.writeStream := by
  unfold Gets fileGetWriteStream Description.writeStream
  cases d.file.write <;> cases opened <;> simp [bind, Except.bind, pure, Except.pure]

theorem step_read_inPlace_iff {len : Nat} (h : d.InPlace) (hstep : d.step (.read len opened t) = some (reply, d')) :
    d'.InPlace ↔ d.Steady (.read len opened t) := by
  simp only [step] at hstep
  rcases fileGetReadStream_cases d opened with hs | ⟨e, hs⟩
  · rw [hs] at hstep
    have hgets := gets_read_iff.mpr hs
    obtain ⟨n, dropped, rfl, -, -, -, -, -, rfl⟩ | ⟨eof, rfl, -, -, rfl⟩ | ⟨e, rfl, -, rfl⟩ :=
      wasilibcRead_cases hstep
    · refine (inPlace_of_write_eq h (by rfl)).trans ?_
      simp [Steady, hgets]
    · refine (inPlace_of_write_eq h (by rfl)).trans ?_
      simp [Steady]
    · refine (inPlace_of_write_eq h (by rfl)).trans ?_
      simp [Steady]
  · rw [hs] at hstep
    cases hstep
    have hnot : ¬ Gets d.file.read opened := by
      rw [gets_read_iff, hs]
      simp
    cases t <;> simp [Steady, hnot, h]

theorem step_write_inPlace_iff {bytes : List UInt8} (h : d.InPlace) (hstep : d.step (.write bytes opened t) = some (reply, d')) :
    d'.InPlace ↔ d.Steady (.write bytes opened t) := by
  simp only [step] at hstep
  rcases fileGetWriteStream_cases d opened with hs | ⟨e, hs⟩
  · rw [hs] at hstep
    have hgets := gets_write_iff.mpr hs
    rw [inPlace_iff]
    cases t with
    | moved n dropped =>
      simp only [wasilibcWrite] at hstep
      split at hstep
      case isTrue hc =>
        cases hstep
        -- the stream and the offset move together
        have hcursor := h.writeStream.resolve_left (by simpa using hc.1)
        simp only [Steady, iff_true, Option.mem_some_iff, forall_eq', hcursor, openCursor]
        right
        split <;> rfl
      case isFalse => cases hstep
    | ended eof =>
      simp only [wasilibcWrite] at hstep
      cases hstep
      simp [Steady]
    | failed e n =>
      simp only [wasilibcWrite] at hstep
      split at hstep
      case isTrue =>
        cases hstep
        simp only [Steady, hgets, true_implies, Option.mem_some_iff, forall_eq']
        cases hdone : d.writeStream.done with
        | true => simp
        | false =>
          have hcursor := h.writeStream.resolve_left (by simp [hdone])
          rw [hcursor]
          unfold openCursor
          cases d.file.append <;> simp [Cursor.advance]
      case isFalse => cases hstep
  · rw [hs] at hstep
    cases hstep
    have hnot : ¬ Gets d.file.write opened := by
      rw [gets_write_iff, hs]
      simp
    cases t <;> simp [Steady, hnot, h]

section

variable {offset : Int} {whence : Whence} {blocked : Bool} {stat : Option Errno}

/-- `lseek` returns an offset or an error. -/
theorem step_lseek_reply {reply : Reply}
    (hstep : d.step (.lseek offset whence blocked stat) = some (reply, d')) :
    (∃ r, reply = .offset r) ∨ ∃ e, reply = .error e := by
  simp only [step] at hstep
  split at hstep
  case h_1 r f _ => cases hstep; exact .inl ⟨r, rfl⟩
  case h_2 e f _ => cases hstep; exact .inr ⟨e, rfl⟩

theorem cachesSize_of_lseek_ok {r : Nat}
    (hstep : d.step (.lseek offset .end blocked stat) = some (.offset r, d')) :
    d.CachesSize .end blocked stat := by
  refine ⟨?_, ?_, .inr rfl⟩
  · cases blocked with
    | false => rfl
    | true => cases hstep
  · cases stat with
    | none => rfl
    | some e => cases blocked <;> cases happ : d.file.append <;>
        simp [step, fileSeek, fileSeekEnd, happ, bind, Except.bind] at hstep

/-- A seek that keeps the streams. -/
theorem step_lseek_ok_inPlace_iff {r : Nat} (h : d.InPlace)
    (hstep : d.step (.lseek offset whence blocked stat) = some (.offset r, d')) :
    d'.InPlace ↔ d.Steady (.lseek offset whence blocked stat) := by
  obtain ⟨hr, hd'⟩ := lseek_ok hstep
  by_cases hkeep : (d.cachedOffset whence : Int) = d.seekTarget offset whence
  · have hrcached : r = d.cachedOffset whence := by omega
    simp only [if_pos hkeep] at hd'
    rw [inPlace_of_write_eq h (by rw [hd'])]
    simp only [hd', true_and, Steady]
    refine forall_congr' fun _ => forall_congr' fun happ => ?_
    rw [hrcached]
    unfold cachedOffset at *
    by_cases hend : whence = .end
    · subst hend
      simp only [or_true, if_true] at hkeep ⊢
      rw [← hkeep]
      constructor
      · exact fun heq _ => .inl heq.symm
      · intro hsteady
        rcases hsteady (cachesSize_of_lseek_ok hstep) with heq | ⟨-, hne⟩
        · exact heq.symm
        · exact absurd rfl hne
    · simp [happ, hend, CachesSize]
  · -- the streams are closed
    simp only [if_neg hkeep] at hd'
    refine iff_of_true (inPlace_of_none (by rw [hd'])) ?_
    intro _ happ hcaches
    have hend : whence = .end := by simpa [happ] using hcaches.2.2
    subst hend
    rw [cachedOffset, if_pos (.inr rfl)] at hkeep
    exact .inr ⟨by omega, fun heq => hkeep heq.symm⟩

/-- `SEEK_END` in a file without `O_APPEND`: the size becomes the offset, and
the streams stay if the size is the target or the target is refused. -/
theorem step_lseek_inPlace_iff {reply : Reply} (h : d.InPlace)
    (hstep : d.step (.lseek offset whence blocked stat) = some (reply, d')) :
    d'.InPlace ↔ d.Steady (.lseek offset whence blocked stat) := by
  obtain ⟨r, rfl⟩ | ⟨e, rfl⟩ := step_lseek_reply hstep
  · exact step_lseek_ok_inPlace_iff h hstep
  · rcases lseek_error hstep with ⟨hcaches, hneg, rfl⟩ | ⟨hnot, rfl⟩
    · refine (inPlace_of_write_eq h (by rfl)).trans ?_
      simp only [true_and, Steady]
      refine forall_congr' fun _ => forall_congr' fun happ => ?_
      have hend : whence = .end := by simpa [happ] using hcaches.2.2
      have hneg := hneg (by simp [hend])
      constructor
      · exact fun heq _ => .inl heq.symm
      · intro hsteady
        rcases hsteady hcaches with heq | ⟨hpos, -⟩
        · exact heq.symm
        · omega
    · exact iff_of_true h fun _ _ hcaches => absurd hcaches hnot

end

/-- A call keeps writes in place exactly when it is steady. -/
theorem step_inPlace_iff {call : Call} (h : d.InPlace)
    (hstep : d.step call = some (reply, d')) : d'.InPlace ↔ d.Steady call := by
  cases call with
  | read len opened t => exact step_read_inPlace_iff h hstep
  | write bytes opened t => exact step_write_inPlace_iff h hstep
  | lseek offset whence blocked stat => exact step_lseek_inPlace_iff h hstep
  | setfl append =>
    cases hstep
    refine (inPlace_of_write_eq h (by rfl)).trans ?_
    simp [Steady]
  | pollRead opened =>
    simp only [step] at hstep
    rcases fileGetReadStream_cases d opened with hs | ⟨e, hs⟩
    · rw [hs] at hstep
      cases hstep
      refine (inPlace_of_write_eq h (by rfl)).trans ?_
      simp [Steady]
    · rw [hs] at hstep
      cases hstep
      simp [Steady, h]
  | pollWrite opened =>
    simp only [step] at hstep
    rcases fileGetWriteStream_cases d opened with hs | ⟨e, hs⟩
    · rw [hs] at hstep
      cases hstep
      simp only [Steady, iff_true, inPlace_iff, Option.mem_some_iff, forall_eq']
      exact h.writeStream
    · rw [hs] at hstep
      cases hstep
      simp [Steady, h]
  | changed contents =>
    cases hstep
    exact ⟨fun _ => trivial, fun _ => h.of_file_eq rfl⟩

/-! ## Runs -/

/-- Every state that the calls pass through has the property. -/
def Throughout (P : Description → Prop) : Description → List Call → Prop
  | d, [] => P d
  | d, call :: calls => P d ∧ ∀ reply d', d.step call = some (reply, d') → Throughout P d' calls

/-- Every call has the property, in the state in which it is made. -/
def Along (P : Description → Call → Prop) : Description → List Call → Prop
  | _, [] => True
  | d, call :: calls =>
    ∀ reply d', d.step call = some (reply, d') → P d call ∧ Along P d' calls

theorem throughout_inPlace_iff (h : d.InPlace) (calls : List Call) :
    Throughout InPlace d calls ↔ Along Steady d calls := by
  induction calls generalizing d with
  | nil => exact ⟨fun _ => trivial, fun _ => h⟩
  | cons call calls ih =>
    constructor
    · rintro ⟨-, hrest⟩ reply d' hstep
      have hthrough := hrest reply d' hstep
      have hd' : d'.InPlace := by
        cases calls with
        | nil => exact hthrough
        | cons _ _ => exact hthrough.1
      exact ⟨(step_inPlace_iff h hstep).mp hd', (ih hd').mp hthrough⟩
    · intro halong
      refine ⟨h, fun reply d' hstep => ?_⟩
      obtain ⟨hsteady, hrest⟩ := halong reply d' hstep
      exact (ih ((step_inPlace_iff h hstep).mpr hsteady)).mpr hrest

/-- From the opening of a file on, writes are where `O_APPEND` and the offset
say at every point of a run exactly when every call of the run is steady. -/
theorem writes_in_place_iff (append : Bool) (contents : List UInt8) (calls : List Call) :
    Throughout InPlace ⟨addFile append, contents⟩ calls ↔
      Along Steady ⟨addFile append, contents⟩ calls :=
  throughout_inPlace_iff (inPlace_of_none rfl) calls

/-- `F_SETFL` does not reach the stream that the first write has opened: with
`O_APPEND` the second write stores at 1, before the end of the file, and
without it a stream that appends goes on doing so. -/
theorem setfl_keeps_stream :
    (run ⟨addFile false, [0, 1, 2, 3]⟩
        [.write [70] (.ok ()) (.moved 1 false), .setfl true,
          .write [71] (.ok ()) (.moved 1 false)]).map (fun r => (r.1, r.2.contents)) =
      some ([.moved 0 [70], .done, .moved 1 [71]], [70, 71, 2, 3]) ∧
    (run ⟨addFile true, [0, 1, 2, 3]⟩
        [.write [70] (.ok ()) (.moved 1 false), .setfl false,
          .write [71] (.ok ()) (.moved 1 false)]).map (fun r => (r.1, r.2.file.offset)) =
      some ([.moved 4 [70], .done, .moved 5 [71]], 2) := by
  decide

end WasiLibc.File.Description

import WasiLibc.Errno

/-!
# WasiLibc.File.Description

The open file description of `file.c` on wasip2 and wasip3: the offset, the
`O_APPEND` flag and the two lazily opened host streams, each of which keeps
a position of its own that libc cannot see.

Positions are natural numbers: `file_seek` refuses a negative target, and no
file reaches past the range of `off_t`; only the additions in `file_seek`,
whose operand comes from the caller, wrap (`toOffT`).

The host's answers are arguments.  It answers a request to open a stream
(on wasip3 never with an error), a `stat`, and, for the call
`__wasilibc_read_without_offset_update` or its writing counterpart on an
open stream, a `Transfer`: what the stream moved before the call returned.
A stream opened at position `p` moves consecutive bytes from `p` on; the
streams of a file are only used in blocking mode, so that nothing is
buffered on the way.
-/

namespace WasiLibc.File

/-! ## The file on the host -/

/-- The `n` bytes at position `pos`. -/
def slice (contents : List UInt8) (pos n : Nat) : List UInt8 := (contents.drop pos).take n

/-- Store `bytes` at position `pos`; a gap before it is filled with zeros. -/
def store (contents : List UInt8) (pos : Nat) (bytes : List UInt8) : List UInt8 :=
  (contents ++ List.replicate (pos - contents.length) 0).take pos ++ bytes ++
    contents.drop (pos + bytes.length)

/-- An open input stream: its position, and whether it has ended (closed on
wasip2, `WASIP3_IO_DONE` on wasip3). -/
structure ReadStream where
  pos : Nat
  done : Bool
  deriving DecidableEq, Repr

/-- Where an output stream stores: at a position of its own, or at the end
of the file. -/
inductive Cursor where
  | at (pos : Nat)
  | append
  deriving DecidableEq, Repr

/-- An open output stream. -/
structure WriteStream where
  cursor : Cursor
  done : Bool
  deriving DecidableEq, Repr

/-- The position at which the next byte is stored. -/
def Cursor.position (size : Nat) : Cursor → Nat
  | .at pos => pos
  | .append => size

/-- The cursor after `n` bytes. -/
def Cursor.advance (n : Nat) : Cursor → Cursor
  | .at pos => .at (pos + n)
  | .append => .append

/-! ## The description -/

/-- `file_t`: of `oflag` only `O_APPEND` matters here, and a stream is
`none` until it is opened. -/
structure FileT where
  offset : Nat
  append : Bool
  read : Option ReadStream
  write : Option WriteStream
  deriving DecidableEq, Repr

/-- `__wasilibc_add_file`. -/
def addFile (append : Bool) : FileT := ⟨0, append, none, none⟩

/-- `file_close_streams`. -/
def fileCloseStreams (f : FileT) : FileT := { f with read := none, write := none }

/-- `file_get_read_stream`: the stream that the call will use. -/
def fileGetReadStream (f : FileT) (opened : Except Errno Unit) : Except Errno ReadStream :=
  match f.read with
  | some s => .ok s
  | none => do
      opened
      return ⟨f.offset, false⟩

/-- `file_get_write_stream`. -/
def fileGetWriteStream (f : FileT) (opened : Except Errno Unit) : Except Errno WriteStream :=
  match f.write with
  | some s => .ok s
  | none => do
      opened
      return ⟨if f.append then .append else .at f.offset, false⟩

/-- `file_seek_end`. -/
def fileSeekEnd (f : FileT) (stat : Except Errno Nat) : Except Errno FileT := do
  let size ← stat
  return { f with offset := size }

/-- The argument `whence` of `lseek`. -/
inductive Whence where
  | set
  | cur
  | end
  | other
  deriving DecidableEq, Repr

/-- A sum in the signed 64-bit type `off_t`. -/
def toOffT (n : Int) : Int := Int.bmod n (2 ^ 64)

/-- The end of `file_seek`, once the target is known. -/
def seekTo (f : FileT) (result : Int) : Except Errno Nat × FileT :=
  if result < 0 then (.error .EINVAL, f)
  else if result ≠ f.offset then
    (.ok result.toNat, { fileCloseStreams f with offset := result.toNat })
  else (.ok f.offset, f)

/-- `file_seek`.  `blocked` is what `wasip3_io_state_blocked` says of the two
streams, which is `false` on wasip2. -/
def fileSeek (f : FileT) (blocked : Bool) (stat : Except Errno Nat) (offset : Int)
    (whence : Whence) : Except Errno Nat × FileT :=
  if blocked then (.error .EOPNOTSUPP, f)
  else
    match if f.append then fileSeekEnd f stat else .ok f with
    | .error e => (.error e, f)
    | .ok f =>
      match whence with
      | .set => seekTo f offset
      | .cur => seekTo f (toOffT (f.offset + offset))
      | .end =>
        match if f.append then .ok f else fileSeekEnd f stat with
        | .error e => (.error e, f)
        | .ok f => seekTo f (toOffT (f.offset + offset))
      | .other => (.error .EINVAL, f)

/-! ## Reading and writing -/

/-- What a stream does during one call. -/
inductive Transfer where
  /-- It moves `n` bytes, which is what the call returns; on wasip3 it may
  report its end along with them. -/
  | moved (n : Nat) (dropped : Bool)
  /-- It has ended; the `eof` callback of wasip3 may report an error. -/
  | ended (eof : Except Errno Unit)
  /-- The call fails, although `n` bytes may have been taken. -/
  | failed (e : Errno) (n : Nat)
  deriving DecidableEq, Repr

/-- What a call returns.  The position of the bytes moved is not visible to
the caller. -/
inductive Reply where
  | moved (pos : Nat) (bytes : List UInt8)
  | zero
  | offset (n : Nat)
  | done
  | error (e : Errno)
  deriving DecidableEq, Repr

/-- The file together with its open description. -/
structure Description where
  file : FileT
  contents : List UInt8
  deriving DecidableEq, Repr

namespace Description

/-- The reply to a call that moved `bytes`. -/
def movedReply (pos : Nat) (bytes : List UInt8) : Reply :=
  if bytes = [] then .zero else .moved pos bytes

def endedReply : Except Errno Unit → Reply
  | .ok _ => .zero
  | .error e => .error e

/-- `__wasilibc_read` on the stream `s`: a positive result moves the offset.
`none` is a transfer that the host does not make: it moves bytes that are
there, at least one unless none are asked for, and without an error it ends
only at the end of the file. -/
def wasilibcRead (d : Description) (s : ReadStream) (len : Nat) :
    Transfer → Option (Reply × Description)
  | .moved n dropped =>
    if ¬ s.done ∧ n ≤ len ∧ (0 < n ∨ len = 0) ∧ s.pos + n ≤ max s.pos d.contents.length ∧
        (dropped → d.contents.length ≤ s.pos + n) then
      some (movedReply s.pos (slice d.contents s.pos n),
        { d with file := { d.file with
            offset := d.file.offset + n
            read := some ⟨s.pos + n, dropped⟩ } })
    else none
  | .ended eof =>
    if s.done ∨ d.contents.length ≤ s.pos ∨ endedReply eof ≠ .zero then
      some (endedReply eof, { d with file := { d.file with read := some ⟨s.pos, true⟩ } })
    else none
  | .failed e n =>
    if n = 0 then some (.error e, { d with file := { d.file with read := some s } }) else none

/-- `__wasilibc_write` on the stream `s`. -/
def wasilibcWrite (d : Description) (s : WriteStream) (bytes : List UInt8) :
    Transfer → Option (Reply × Description)
  | .moved n dropped =>
    if ¬ s.done ∧ n ≤ bytes.length ∧ (0 < n ∨ bytes = []) then
      let pos := s.cursor.position d.contents.length
      some (movedReply pos (bytes.take n),
        ⟨{ d.file with
            offset := d.file.offset + n
            write := some ⟨s.cursor.advance n, dropped⟩ },
          store d.contents pos (bytes.take n)⟩)
    else none
  | .ended eof =>
    some (endedReply eof,
      { d with file := { d.file with write := some ⟨s.cursor, true⟩ } })
  | .failed e n =>
    if n ≤ bytes.length then
      some (.error e,
        ⟨{ d.file with write := some ⟨s.cursor.advance n, s.done⟩ },
          store d.contents (s.cursor.position d.contents.length) (bytes.take n)⟩)
    else none

/-- The calls on a descriptor, with the host's answers; `poll` opens the
streams it watches, and `changed` is a change of the file from outside. -/
inductive Call where
  | read (len : Nat) (opened : Except Errno Unit) (t : Transfer)
  | write (bytes : List UInt8) (opened : Except Errno Unit) (t : Transfer)
  | lseek (offset : Int) (whence : Whence) (blocked : Bool) (stat : Option Errno)
  | setfl (append : Bool)
  | pollRead (opened : Except Errno Unit)
  | pollWrite (opened : Except Errno Unit)
  | changed (contents : List UInt8)

/-- One call. -/
def step (d : Description) : Call → Option (Reply × Description)
  | .read len opened t =>
    match fileGetReadStream d.file opened with
    | .error e => some (.error e, d)
    | .ok s => d.wasilibcRead s len t
  | .write bytes opened t =>
    match fileGetWriteStream d.file opened with
    | .error e => some (.error e, d)
    | .ok s => d.wasilibcWrite s bytes t
  | .lseek offset whence blocked stat =>
    match fileSeek d.file blocked
      (match stat with | none => .ok d.contents.length | some e => .error e) offset whence with
    | (.ok r, f) => some (.offset r, { d with file := f })
    | (.error e, f) => some (.error e, { d with file := f })
  | .setfl append => some (.done, { d with file := { d.file with append := append } })
  | .pollRead opened =>
    match fileGetReadStream d.file opened with
    | .error e => some (.error e, d)
    | .ok s => some (.done, { d with file := { d.file with read := some s } })
  | .pollWrite opened =>
    match fileGetWriteStream d.file opened with
    | .error e => some (.error e, d)
    | .ok s => some (.done, { d with file := { d.file with write := some s } })
  | .changed contents => some (.done, { d with contents := contents })

/-- A sequence of calls, with the replies. -/
def run (d : Description) : List Call → Option (List Reply × Description)
  | [] => some ([], d)
  | call :: calls => do
      let (r, d) ← d.step call
      let (rs, d) ← d.run calls
      return (r :: rs, d)

end Description

end WasiLibc.File

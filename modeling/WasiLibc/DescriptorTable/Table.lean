import WasiLibc.Errno

/-!
# WasiLibc.DescriptorTable.Table

The descriptor table of `descriptor_table.c`: a growable array of slots
indexed by file descriptors, with the allocation hint `next_fd`, and the
reference counts that the entries' objects carry.

The definitions follow the C functions one by one:

* `tableGrow`, `tableAllocate`, `tableLookup`, `tableRemove` work on a
  `Table` alone;
* `descriptorTableEntryInc` / `descriptorTableEntryDec` work on `Objects`,
  the reference counts, `live_descriptors` and the log of `vtable->free`
  calls;
* `descriptorTableInsert` ... `descriptorTableClear` combine the two.

An outcome of `realloc` is an argument: it fails, or it keeps the contents.
Functions that can fail with `errno` return `Except Errno _`, and a failed
`assert` is `none`.  The lazy stdio initialisation in front of every entry
point is taken as done, so `stdio_initialized` does not occur here.  Sizes
and counts are natural numbers: an array or a set of references that would
make one of them wrap does not fit in the address space.
-/

namespace WasiLibc.DescriptorTable

open Function

/-! ## Slots -/

/-- `descriptor_table_entry_t`: the object's address (where its reference
count is) and its vtable, of which the table only calls `free`. -/
structure Entry where
  data : Nat
  vtable : Nat
  deriving DecidableEq, Repr

/-- `descriptor_table_item_t`. -/
structure Item where
  occupied : Bool
  entry : Entry
  deriving DecidableEq, Repr

/-- What `memset(_, 0, _)` leaves in a slot. -/
def Item.zero : Item := ⟨false, ⟨0, 0⟩⟩

/-- `descriptor_table_t`.  The C field `len` is the length of `entries`. -/
structure Table where
  entries : List Item
  nextFd : Nat
  deriving DecidableEq, Repr

namespace Table

/-- The zero-initialised `global_table`. -/
def empty : Table := ⟨[], 0⟩

def len (t : Table) : Nat := t.entries.length

/-- `table->entries[fd]`; past the end, where the C code never reads, a zeroed
slot. -/
def slot (t : Table) (fd : Nat) : Item := t.entries[fd]?.getD Item.zero

/-- The entry a descriptor denotes: the abstraction of the table to a map. -/
def denotes (t : Table) (fd : Nat) : Option Entry :=
  if (t.slot fd).occupied then some (t.slot fd).entry else none

end Table

/-- `MINSIZE`. -/
def minsize : Nat := 8

/-- `MAX_DESCRIPTOR`. -/
def maxDescriptor : Int := 2 ^ 20

/-- The loop `while (new_len < needed) new_len *= 2`. -/
def growLen (newLen needed : Nat) : Nat :=
  if 0 < newLen ∧ newLen < needed then growLen (newLen * 2) needed else newLen
termination_by needed - newLen

/-- `table_grow`. -/
def tableGrow (t : Table) (needed : Nat) (realloc : Bool) : Except Errno Table :=
  if needed ≤ t.len then .ok t
  else if realloc then
    let newLen := growLen (if t.len = 0 then minsize else t.len) needed
    .ok { t with entries := t.entries ++ List.replicate (newLen - t.len) Item.zero }
  else .error .ENOMEM

/-- The scan `while (fd < len && entries[fd].occupied) fd++`, on the slots
from `fd` on. -/
def skipOccupied : List Item → Nat → Nat
  | [], fd => fd
  | item :: items, fd => if item.occupied then skipOccupied items (fd + 1) else fd

/-- The first unoccupied slot from `fd` on. -/
def Table.freeFrom (t : Table) (fd : Nat) : Nat := skipOccupied (t.entries.drop fd) fd

/-- `table_allocate`. -/
def tableAllocate (t : Table) (entry : Entry) (realloc : Bool) : Except Errno (Nat × Table) := do
  let fd := t.freeFrom t.nextFd
  let t ← if fd = t.len then tableGrow t (t.len + 1) realloc else .ok t
  return (fd, ⟨t.entries.set fd ⟨true, entry⟩, fd + 1⟩)

/-- `table_lookup`. -/
def tableLookup (t : Table) (fd : Int) : Except Errno Entry :=
  if fd < 0 ∨ t.len ≤ fd.toNat then .error .EBADF
  else
    let item := t.slot fd.toNat
    if item.occupied then .ok item.entry else .error .EBADF

/-- `table_remove`. -/
def tableRemove (t : Table) (fd : Int) : Except Errno (Entry × Table) :=
  if fd < 0 ∨ t.len ≤ fd.toNat then .error .EBADF
  else
    let item := t.slot fd.toNat
    if item.occupied then
      .ok (item.entry, ⟨t.entries.set fd.toNat { item with occupied := false },
        if fd.toNat < t.nextFd then fd.toNat else t.nextFd⟩)
    else .error .EBADF

/-! ## Reference counts -/

/-- The objects behind the entries: the count at each address, the debug
counter `live_descriptors`, and the `vtable->free` calls made so far. -/
structure Objects where
  cnt : Nat → Nat
  liveDescriptors : Nat
  freed : List Entry

/-- `descriptor_table_entry_inc`. -/
def descriptorTableEntryInc (o : Objects) (entry : Entry) : Option Objects :=
  if 0 < o.cnt entry.data then
    some { o with cnt := update o.cnt entry.data (o.cnt entry.data + 1) }
  else none

/-- `__wasilibc_descriptor_deallocate`; `live_descriptors_dec` asserts that
the counter is positive. -/
def wasilibcDescriptorDeallocate (o : Objects) (entry : Entry) : Option Objects :=
  if o.cnt entry.data = 0 ∧ 0 < o.liveDescriptors then
    some { o with liveDescriptors := o.liveDescriptors - 1, freed := o.freed ++ [entry] }
  else none

/-- `descriptor_table_entry_dec`. -/
def descriptorTableEntryDec (o : Objects) (entry : Entry) : Option Objects :=
  if 0 < o.cnt entry.data then
    let o := { o with cnt := update o.cnt entry.data (o.cnt entry.data - 1) }
    if o.cnt entry.data = 0 then wasilibcDescriptorDeallocate o entry else some o
  else none

/-- What `dup2` does to the slot it replaces and `clear` to every slot: the
reference of an occupied slot is dropped. -/
def dropItem (o : Objects) (item : Item) : Option Objects :=
  if item.occupied then descriptorTableEntryDec o item.entry else some o

/-! ## The entry points -/

/-- The global table with the objects it refers to. -/
structure State where
  table : Table
  objs : Objects

/-- `descriptor_table_insert_entry`: on failure the reference handed in is
dropped, with `errno` kept. -/
def descriptorTableInsertEntry (s : State) (entry : Entry) (realloc : Bool) :
    Option (Except Errno Nat × State) :=
  if 0 < s.objs.cnt entry.data then
    match tableAllocate s.table entry realloc with
    | .ok (fd, t) => some (.ok fd, { s with table := t })
    | .error e => do
        let objs ← descriptorTableEntryDec s.objs entry
        return (.error e, { s with objs := objs })
  else none

/-- `descriptor_table_insert`. -/
def descriptorTableInsert (s : State) (entry : Entry) (realloc : Bool) :
    Option (Except Errno Nat × State) :=
  if s.objs.cnt entry.data = 0 then
    descriptorTableInsertEntry
      { s with objs := { s.objs with
          cnt := update s.objs.cnt entry.data 1
          liveDescriptors := s.objs.liveDescriptors + 1 } } entry realloc
  else none

/-- `descriptor_table_get`: the caller receives a strong reference. -/
def descriptorTableGet (s : State) (fd : Int) : Option (Except Errno Entry × State) :=
  match tableLookup s.table fd with
  | .error e => some (.error e, s)
  | .ok entry => do
      let objs ← descriptorTableEntryInc s.objs entry
      return (.ok entry, { s with objs := objs })

/-- `enum dup_op_t`. -/
inductive DupOp where
  | dup
  | dup2
  | dup3
  | dupfd
  deriving DecidableEq, Repr

/-- The `DUP_OP_DUP3` arm of `descriptor_table_dup`, into which
`DUP_OP_DUP2` falls through: `newfd` is made to denote `entry`. -/
def dupOnto (s : State) (fd : Int) (entry : Entry) (arg : Int) (realloc : Bool) :
    Option (Except Errno Nat × State) :=
  if fd = arg then some (.error .EINVAL, s)
  else if arg < 0 ∨ maxDescriptor ≤ arg then some (.error .EBADF, s)
  else
    let newfd := arg.toNat
    match tableGrow s.table (newfd + 1) realloc with
    | .error e => some (.error e, s)
    | .ok t => do
        let item := t.slot newfd
        let t := { t with entries := t.entries.set newfd ⟨true, entry⟩ }
        let objs ← descriptorTableEntryInc s.objs entry
        -- the previous occupant is dropped only after the slot is replaced
        let objs ← dropItem objs item
        return (.ok newfd, ⟨t, objs⟩)

/-- The `DUP_OP_DUPFD` arm of `descriptor_table_dup`. -/
def dupFrom (s : State) (entry : Entry) (arg : Int) (realloc : Bool) :
    Option (Except Errno Nat × State) :=
  if arg < 0 ∨ maxDescriptor ≤ arg then some (.error .EINVAL, s)
  else
    let minfd := if arg.toNat < s.table.nextFd then s.table.nextFd else arg.toNat
    let minfd := s.table.freeFrom minfd
    match tableGrow s.table (minfd + 1) realloc with
    | .error e => some (.error e, s)
    | .ok t => do
        let objs ← descriptorTableEntryInc s.objs entry
        return (.ok minfd, ⟨{ t with entries := t.entries.set minfd ⟨true, entry⟩ }, objs⟩)

/-- `descriptor_table_dup`. -/
def descriptorTableDup (s : State) (fd : Int) (op : DupOp) (arg : Int) (realloc : Bool) :
    Option (Except Errno Nat × State) :=
  match tableLookup s.table fd with
  | .error e => some (.error e, s)
  | .ok entry =>
    match op with
    | .dup => do
        let objs ← descriptorTableEntryInc s.objs entry
        descriptorTableInsertEntry { s with objs := objs } entry realloc
    | .dup2 => if fd = arg then some (.ok arg.toNat, s) else dupOnto s fd entry arg realloc
    | .dup3 => dupOnto s fd entry arg realloc
    | .dupfd => dupFrom s entry arg realloc

/-- `descriptor_table_remove`: the slot is emptied before its reference is
dropped. -/
def descriptorTableRemove (s : State) (fd : Int) : Option (Except Errno Unit × State) :=
  match tableRemove s.table fd with
  | .error e => some (.error e, s)
  | .ok (entry, t) => do
      let objs ← descriptorTableEntryDec s.objs entry
      return (.ok (), ⟨t, objs⟩)

/-- The loop of `clear`: one reference is dropped for each occupied slot. -/
def clearItems : List Item → Objects → Option Objects
  | [], o => some o
  | item :: items, o => (dropItem o item).bind (clearItems items)

/-- `descriptor_table_clear`: the loop of `clear`, then the array is freed. -/
def descriptorTableClear (s : State) : Option State := do
  let objs ← clearItems s.table.entries s.objs
  return ⟨Table.empty, objs⟩

end WasiLibc.DescriptorTable

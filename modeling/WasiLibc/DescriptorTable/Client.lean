import WasiLibc.Lib.Steps
import WasiLibc.DescriptorTable.Posix
import WasiLibc.DescriptorTable.RefCount

/-!
# WasiLibc.DescriptorTable.Client

The table together with the clients that call it.  `Client` adds to the
state of the table the strong references that the clients own and the log
of the objects they inserted; `Client.step` is one call.

`Client.Inv` holds of every state a client can reach: the hint of the table
is correct and the reference counts are exact.  For each entry point one
lemma says that a legal call succeeds in passing every assertion, keeps the
invariant, and answers as `Posix` prescribes; `Client.step_spec` puts them
together.
-/

namespace WasiLibc.DescriptorTable

/-- The map that a table represents. -/
def Table.fdMap (t : Table) : FdMap Entry where
  bind := t.denotes
  finite := (Set.finite_lt_nat t.len).subset fun _ h => lt_len_of_denotes h

/-- The table, the references its clients own, and what they inserted. -/
structure Client where
  state : State
  refs : List Entry
  inserted : List Entry

namespace Client

/-- Before any call; stdio is not counted. -/
def initial : Client := ⟨⟨Table.empty, ⟨fun _ => 0, 0, []⟩⟩, [], []⟩

/-- The reply of a call that returns a descriptor. -/
def fdReply : Except Errno Nat → Reply Entry
  | .ok fd => .fd fd
  | .error e => .error e

/-- One call.  A strong reference obtained from `get` is owned until it is
released; `none` is a failed assertion, or the release of a reference that
is not owned. -/
def step (c : Client) (call : Call Entry) : Option (Reply Entry × Client) :=
  match call.op with
  | .insert entry => do
      let (r, s) ← descriptorTableInsert c.state entry call.realloc
      return (fdReply r, { c with state := s, inserted := entry :: c.inserted })
  | .get fd => do
      match ← descriptorTableGet c.state fd with
      | (.ok entry, s) => return (.object entry, { c with state := s, refs := entry :: c.refs })
      | (.error e, s) => return (.error e, { c with state := s })
  | .dup fd op arg => do
      let (r, s) ← descriptorTableDup c.state fd op arg call.realloc
      return (fdReply r, { c with state := s })
  | .remove fd => do
      match ← descriptorTableRemove c.state fd with
      | (.ok _, s) => return (.done, { c with state := s })
      | (.error e, s) => return (.error e, { c with state := s })
  | .clear => do
      let s ← descriptorTableClear c.state
      return (.done, { c with state := s })
  | .release entry =>
    if entry ∈ c.refs then do
      let objs ← descriptorTableEntryDec c.state.objs entry
      return (.done, { c with
        state := { c.state with objs := objs }
        refs := c.refs.erase entry })
    else none

/-- A sequence of calls, with the replies. -/
def run (c : Client) : List (Call Entry) → Option (List (Reply Entry) × Client)
  | [] => some ([], c)
  | call :: calls => do
      let (r, c) ← c.step call
      let (rs, c) ← c.run calls
      return (r :: rs, c)

/-- What the table asks of its clients: an inserted object is new, and only
owned references are released. -/
def Legal (c : Client) (call : Call Entry) : Prop :=
  match call.op with
  | .insert entry => c.state.objs.cnt entry.data = 0
  | .release entry => entry ∈ c.refs
  | _ => True

/-- Every reference that exists: one for each occupied slot, and those the
clients own. -/
def held (c : Client) : List Entry := c.state.table.held ++ c.refs

/-- The invariant of the table and its clients. -/
structure Inv (c : Client) : Prop where
  wf : c.state.table.Wf
  exact : Exact c.inserted c.held c.state.objs

theorem inv_initial : Inv initial :=
  ⟨Table.wf_empty, ⟨by simp [initial, held, Table.held, Table.empty], by
    simp [initial, held, Table.held, Table.empty], by
    simp [initial, held, Table.held, Table.empty], rfl⟩⟩

/-- What a legal call achieves: it passes every assertion, keeps the
invariant, answers as POSIX says and undoes no `free`. -/
def Meets (c : Client) (call : Call Entry) : Prop :=
  ∃ r c', c.step call = some (r, c') ∧ Inv c' ∧
    Posix c.state.table.fdMap call.op call.realloc r c'.state.table.fdMap ∧
    c.state.objs.freed <+: c'.state.objs.freed

end Client

/-! ## Binding and unbinding one descriptor -/

section Slot

variable {t t₁ : Table} {fd : Nat}

/-- Writing a slot of a grown table updates the map. -/
theorem Table.Grown.fdMap_set (hg : t.Grown t₁) (hlt : fd < t₁.len) (item : Item) (n : Nat) :
    Table.fdMap ⟨t₁.entries.set fd item, n⟩ =
      t.fdMap.update fd (if item.occupied then some item.entry else none) := by
  ext1
  exact (Table.denotes_set item n hlt).trans (by rw [hg.denotes]; rfl)

/-- Writing a slot of a grown table moves references in and out of it. -/
theorem Table.Grown.held_set (hg : t.Grown t₁) (hlt : fd < t₁.len) (item : Item) (n : Nat)
    (refs : List Entry) :
    ((t.denotes fd).toList ++ (Table.held ⟨t₁.entries.set fd item, n⟩ ++ refs)).Perm
      (item.held ++ (t.held ++ refs)) := by
  have h := (Table.held_set item n hlt).append_right refs
  rwa [hg.denotes, hg.held, List.append_assoc, List.append_assoc] at h

/-- The lookup of a client's descriptor, on the map. -/
theorem tableLookup_eq_find (t : Table) (fd : Int) :
    tableLookup t fd =
      match t.fdMap.find fd with
      | some e => .ok e
      | none => .error .EBADF :=
  tableLookup_eq t fd

theorem mem_held_of_find {fd : Int} {e : Entry} (h : t.fdMap.find fd = some e) :
    e ∈ t.held := by
  unfold FdMap.find at h
  split at h
  · cases h
  · exact Table.mem_held_of_denotes h

end Slot

/-! ## One lemma for each entry point -/

section EntryPoints

variable {s : State} {refs inserted : List Entry} {e : Entry}

/-- `descriptor_table_insert_entry` moves the caller's reference into the
table, or drops it. -/
theorem descriptorTableInsertEntry_spec (hw : s.table.Wf)
    (hx : Exact inserted (e :: (s.table.held ++ refs)) s.objs) (realloc : Bool) :
    ∃ r s', descriptorTableInsertEntry s e realloc = some (r, s') ∧
      Client.Inv ⟨s', refs, inserted⟩ ∧ s.objs.freed <+: s'.objs.freed ∧
      ((∃ fd, r = .ok fd ∧ IsLeast (s.table.fdMap.free 0) fd ∧
          s'.table.fdMap = s.table.fdMap.update fd (some e)) ∨
        (realloc = false ∧ r = .error .ENOMEM ∧ s'.table = s.table)) := by
  unfold descriptorTableInsertEntry
  rw [if_pos (hx.cnt_pos List.mem_cons_self)]
  obtain ⟨fd, t₁, hok, hg, hlt, hleast⟩ | ⟨hr, herr⟩ := tableAllocate_cases hw e realloc
  · refine ⟨.ok fd, ⟨⟨t₁.entries.set fd ⟨true, e⟩, fd + 1⟩, s.objs⟩, by rw [hok], ⟨?_, ?_⟩,
      List.prefix_rfl, .inl ⟨fd, rfl, ?_, hg.fdMap_set hlt ⟨true, e⟩ _⟩⟩
    · exact Table.wf_set_least hg e hlt hleast
    · -- the slot was free, so the reference handed in is the only one that moves
      have hp := hg.held_set hlt ⟨true, e⟩ (fd + 1) refs
      rw [show s.table.denotes fd = none from hleast.1] at hp
      exact hx.perm hp.symm
    · simpa [FdMap.free, Table.fdMap] using hleast
  · obtain ⟨o', hdec, hx', hfreed⟩ := hx.dec
    exact ⟨.error .ENOMEM, { s with objs := o' }, by rw [herr]; simp [hdec], ⟨hw, hx'⟩,
      ⟨_, hfreed.symm⟩, .inr ⟨hr, rfl, rfl⟩⟩

/-- `dup2` and `dup3` onto another descriptor. -/
theorem dupOnto_spec {fd arg : Int} (hi : Client.Inv ⟨s, refs, inserted⟩)
    (he : e ∈ s.table.held) (hne : fd ≠ arg) (realloc : Bool) :
    ∃ r s', dupOnto s fd e arg realloc = some (r, s') ∧
      Client.Inv ⟨s', refs, inserted⟩ ∧ s.objs.freed <+: s'.objs.freed ∧
      ((Target arg ∧ r = .ok arg.toNat ∧
          s'.table.fdMap = s.table.fdMap.update arg.toNat (some e)) ∨
        (¬ Target arg ∧ r = .error .EBADF ∧ s' = s) ∨
        (Target arg ∧ realloc = false ∧ r = .error .ENOMEM ∧ s' = s)) := by
  unfold dupOnto
  rw [if_neg hne]
  by_cases hrange : arg < 0 ∨ maxDescriptor ≤ arg
  · rw [if_pos hrange]
    exact ⟨_, s, rfl, hi, List.prefix_rfl, .inr (.inl ⟨by unfold Target; omega, rfl, rfl⟩)⟩
  rw [if_neg hrange]
  have htarget : Target arg := by unfold Target; omega
  obtain ⟨t₁, hok, hg, hlt⟩ | ⟨hr, herr⟩ := tableGrow_cases s.table (arg.toNat + 1) realloc
  · obtain ⟨o₁, hinc, hx₁, hfreed₁⟩ := hi.exact.inc (List.mem_append_left _ he)
    have hp := hg.held_set (show arg.toNat < t₁.len from hlt) ⟨true, e⟩ t₁.nextFd refs
    rw [← hg.denotes, ← Table.held_slot] at hp
    obtain ⟨o₂, hdrop, hx₂, hpre⟩ := (hx₁.perm hp.symm).dropItem
    refine ⟨.ok arg.toNat, ⟨⟨t₁.entries.set arg.toNat ⟨true, e⟩, t₁.nextFd⟩, o₂⟩, ?_, ⟨?_, hx₂⟩,
      hfreed₁ ▸ hpre, .inl ⟨htarget, rfl, hg.fdMap_set hlt ⟨true, e⟩ _⟩⟩
    · simp [hok, hinc, hdrop]
    · exact (hg.wf hi.wf).set_occupied _ _ hlt
  · exact ⟨.error .ENOMEM, s, by simp [herr], hi, List.prefix_rfl,
      .inr (.inr ⟨htarget, hr, rfl, rfl⟩)⟩

/-- `F_DUPFD`. -/
theorem dupFrom_spec (hi : Client.Inv ⟨s, refs, inserted⟩) (he : e ∈ s.table.held) (arg : Int)
    (realloc : Bool) :
    ∃ r s', dupFrom s e arg realloc = some (r, s') ∧
      Client.Inv ⟨s', refs, inserted⟩ ∧ s.objs.freed <+: s'.objs.freed ∧
      ((∃ n, Target arg ∧ r = .ok n ∧ IsLeast (s.table.fdMap.free arg.toNat) n ∧
          s'.table.fdMap = s.table.fdMap.update n (some e)) ∨
        (¬ Target arg ∧ r = .error .EINVAL ∧ s' = s) ∨
        (Target arg ∧ realloc = false ∧ r = .error .ENOMEM ∧ s' = s)) := by
  unfold dupFrom
  by_cases hrange : arg < 0 ∨ maxDescriptor ≤ arg
  · rw [if_pos hrange]
    exact ⟨_, s, rfl, hi, List.prefix_rfl, .inr (.inl ⟨by unfold Target; omega, rfl, rfl⟩)⟩
  rw [if_neg hrange]
  have htarget : Target arg := by unfold Target; omega
  have hleast := hi.wf.isLeast_freeFrom arg.toNat
  simp only
  generalize s.table.freeFrom _ = n at hleast
  obtain ⟨t₁, hok, hg, hlt⟩ | ⟨hr, herr⟩ := tableGrow_cases s.table (n + 1) realloc
  · obtain ⟨o₁, hinc, hx₁, hfreed₁⟩ := hi.exact.inc (List.mem_append_left _ he)
    have hp := hg.held_set (show n < t₁.len from hlt) ⟨true, e⟩ t₁.nextFd refs
    rw [hleast.1.2] at hp
    refine ⟨.ok n, ⟨⟨t₁.entries.set n ⟨true, e⟩, t₁.nextFd⟩, o₁⟩, ?_, ⟨?_, hx₁.perm hp.symm⟩,
      hfreed₁ ▸ List.prefix_rfl, .inl ⟨n, htarget, rfl, hleast, hg.fdMap_set hlt ⟨true, e⟩ _⟩⟩
    · simp [hok, hinc]
    · exact (hg.wf hi.wf).set_occupied _ _ hlt
  · exact ⟨.error .ENOMEM, s, by simp [herr], hi, List.prefix_rfl,
      .inr (.inr ⟨htarget, hr, rfl, rfl⟩)⟩

end EntryPoints

/-! ## The system -/

namespace Client

variable {c : Client} {realloc : Bool}

theorem meets_insert (hi : c.Inv) {e : Entry} (h0 : c.state.objs.cnt e.data = 0) :
    c.Meets ⟨.insert e, realloc⟩ := by
  obtain ⟨r, s', hrun, hi', hpre, hcases⟩ :=
    descriptorTableInsertEntry_spec (s := { c.state with objs := { c.state.objs with
      cnt := Function.update c.state.objs.cnt e.data 1
      liveDescriptors := c.state.objs.liveDescriptors + 1 } })
      hi.wf (hi.exact.insert h0) realloc
  refine ⟨fdReply r, ⟨s', c.refs, e :: c.inserted⟩, ?_, hi', ?_, hpre⟩
  · simp [step, descriptorTableInsert, h0, hrun]
  · obtain ⟨fd, rfl, hleast, hmap⟩ | ⟨rfl, rfl, htable⟩ := hcases
    · rw [hmap]; exact .insert hleast
    · rw [htable]; exact .insertNomem

theorem meets_get (hi : c.Inv) (fd : Int) : c.Meets ⟨.get fd, realloc⟩ := by
  have hlook := tableLookup_eq_find c.state.table fd
  cases hfind : c.state.table.fdMap.find fd with
  | none =>
    rw [hfind] at hlook
    refine ⟨.error .EBADF, c, ?_, hi, .getBadf hfind, List.prefix_rfl⟩
    simp [step, descriptorTableGet, hlook]
  | some e =>
    rw [hfind] at hlook
    obtain ⟨o', hinc, hx', hfreed⟩ :=
      hi.exact.inc (List.mem_append_left _ (mem_held_of_find hfind))
    refine ⟨.object e, ⟨⟨c.state.table, o'⟩, e :: c.refs, c.inserted⟩, ?_, ⟨hi.wf, ?_⟩,
      .get hfind, hfreed ▸ List.prefix_rfl⟩
    · simp [step, descriptorTableGet, hlook, hinc]
    · exact hx'.perm List.perm_middle.symm

theorem meets_dup (hi : c.Inv) (fd : Int) (op : DupOp) (arg : Int) :
    c.Meets ⟨.dup fd op arg, realloc⟩ := by
  have hlook := tableLookup_eq_find c.state.table fd
  cases hfind : c.state.table.fdMap.find fd with
  | none =>
    rw [hfind] at hlook
    refine ⟨.error .EBADF, c, ?_, hi, .dupBadf hfind, List.prefix_rfl⟩
    simp [step, descriptorTableDup, hlook, fdReply]
  | some e =>
    rw [hfind] at hlook
    have he := mem_held_of_find hfind
    -- `dup2` and `dup3` share the code that replaces another slot
    have honto : (op = .dup2 ∨ op = .dup3) → fd ≠ arg →
        descriptorTableDup c.state fd op arg realloc = dupOnto c.state fd e arg realloc →
        c.Meets ⟨.dup fd op arg, realloc⟩ := by
      intro hop hne hdup
      obtain ⟨r, s', hrun, hi', hpre, hcases⟩ := dupOnto_spec hi he hne realloc
      refine ⟨fdReply r, ⟨s', c.refs, c.inserted⟩, ?_, hi', ?_, hpre⟩
      · simp [step, hdup, hrun]
      · obtain ⟨ht, rfl, hmap⟩ | ⟨ht, rfl, rfl⟩ | ⟨ht, rfl, rfl, rfl⟩ := hcases
        · rw [hmap]; exact .onto hop hfind hne ht
        · exact .ontoRange hop hfind hne ht
        · exact .ontoNomem hop hfind hne ht
    cases op with
    | dup =>
      obtain ⟨o₁, hinc, hx₁, hfreed⟩ := hi.exact.inc (List.mem_append_left _ he)
      obtain ⟨r, s', hrun, hi', hpre, hcases⟩ :=
        descriptorTableInsertEntry_spec (s := { c.state with objs := o₁ }) hi.wf hx₁ realloc
      refine ⟨fdReply r, ⟨s', c.refs, c.inserted⟩, ?_, hi', ?_, hfreed ▸ hpre⟩
      · simp [step, descriptorTableDup, hlook, hinc, hrun]
      · obtain ⟨n, rfl, hleast, hmap⟩ | ⟨rfl, rfl, htable⟩ := hcases
        · rw [hmap]; exact .dup hfind hleast
        · rw [htable]; exact .dupNomem hfind
    | dup2 =>
      by_cases hself : fd = arg
      · subst hself
        refine ⟨.fd fd.toNat, c, ?_, hi, .dup2Self hfind, List.prefix_rfl⟩
        simp [step, descriptorTableDup, hlook, fdReply]
      · exact honto (.inl rfl) hself (by simp [descriptorTableDup, hlook, hself])
    | dup3 =>
      by_cases hself : fd = arg
      · subst hself
        refine ⟨.error .EINVAL, c, ?_, hi, .dup3Self hfind, List.prefix_rfl⟩
        simp [step, descriptorTableDup, hlook, fdReply, dupOnto]
      · exact honto (.inr rfl) hself (by simp [descriptorTableDup, hlook])
    | dupfd =>
      obtain ⟨r, s', hrun, hi', hpre, hcases⟩ := dupFrom_spec hi he arg realloc
      refine ⟨fdReply r, ⟨s', c.refs, c.inserted⟩, ?_, hi', ?_, hpre⟩
      · simp [step, descriptorTableDup, hlook, hrun]
      · obtain ⟨n, ht, rfl, hleast, hmap⟩ | ⟨ht, rfl, rfl⟩ | ⟨ht, rfl, rfl, rfl⟩ := hcases
        · rw [hmap]; exact .dupfd hfind ht hleast
        · exact .dupfdRange hfind ht
        · exact .dupfdNomem hfind ht

theorem meets_remove (hi : c.Inv) (fd : Int) : c.Meets ⟨.remove fd, realloc⟩ := by
  cases hfind : c.state.table.fdMap.find fd with
  | none =>
    have hrem := tableRemove_of_not_denotes hfind
    refine ⟨.error .EBADF, c, ?_, hi, .removeBadf hfind, List.prefix_rfl⟩
    simp [step, descriptorTableRemove, hrem]
  | some e =>
    obtain ⟨n, rfl⟩ : ∃ n : Nat, fd = n := Int.eq_ofNat_of_zero_le (by
      unfold FdMap.find at hfind
      split at hfind
      · cases hfind
      · omega)
    have hden : c.state.table.denotes n = some e := by
      simpa [FdMap.find, Table.fdMap] using hfind
    have hlt : n < c.state.table.len := Table.lt_len_of_denotes (by simp [hden])
    have hrem := tableRemove_of_denotes hden
    have hg := Table.Grown.refl c.state.table
    -- the slot gives up its reference, which is then dropped
    have hp := hg.held_set hlt ⟨false, e⟩
      (if n < c.state.table.nextFd then n else c.state.table.nextFd) c.refs
    rw [hden] at hp
    obtain ⟨o', hdec, hx', hfreed⟩ := (hi.exact.perm hp.symm).dec
    refine ⟨.done, ⟨⟨⟨c.state.table.entries.set n ⟨false, e⟩,
      if n < c.state.table.nextFd then n else c.state.table.nextFd⟩, o'⟩, c.refs, c.inserted⟩,
      ?_, ⟨hi.wf.set_removed e hlt, hx'⟩, ?_, ⟨_, hfreed.symm⟩⟩
    · simp [step, descriptorTableRemove, hrem, hdec]
    · rw [hg.fdMap_set hlt]
      exact .remove hfind

theorem meets_clear (hi : c.Inv) : c.Meets ⟨.clear, realloc⟩ := by
  obtain ⟨o', hclear, hx', hpre⟩ := hi.exact.clearItems
  refine ⟨.done, ⟨⟨Table.empty, o'⟩, c.refs, c.inserted⟩, ?_, ⟨Table.wf_empty, hx'⟩, ?_, hpre⟩
  · simp [step, descriptorTableClear, hclear]
  · have hmap : Table.empty.fdMap = .empty := by
      ext1
      funext fd
      exact Table.denotes_of_len_le (show Table.empty.len ≤ fd from Nat.zero_le _)
    simp only [hmap]
    exact .clear

theorem meets_release (hi : c.Inv) {e : Entry} (he : e ∈ c.refs) :
    c.Meets ⟨.release e, realloc⟩ := by
  have hp : c.held.Perm (e :: (c.state.table.held ++ c.refs.erase e)) :=
    ((List.perm_cons_erase he).append_left _).trans List.perm_middle
  obtain ⟨o', hdec, hx', hfreed⟩ := (hi.exact.perm hp).dec
  refine ⟨.done, ⟨⟨c.state.table, o'⟩, c.refs.erase e, c.inserted⟩, ?_, ⟨hi.wf, hx'⟩, .release,
    ⟨_, hfreed.symm⟩⟩
  simp [step, he, hdec]

/-- Every legal call meets its specification. -/
theorem step_spec (hi : c.Inv) {call : Call Entry} (hl : c.Legal call) : c.Meets call := by
  obtain ⟨op, realloc⟩ := call
  cases op with
  | insert e => exact meets_insert hi hl
  | get fd => exact meets_get hi fd
  | dup fd op arg => exact meets_dup hi fd op arg
  | remove fd => exact meets_remove hi fd
  | clear => exact meets_clear hi
  | release e => exact meets_release hi hl

/-- A call that passes every assertion is legal. -/
theorem legal_of_step {call : Call Entry} {r : Reply Entry} {c' : Client}
    (h : c.step call = some (r, c')) : c.Legal call := by
  obtain ⟨op, realloc⟩ := call
  cases op with
  | insert e =>
    by_contra hl
    have hne : ¬ c.state.objs.cnt e.data = 0 := hl
    simp [step, descriptorTableInsert, hne] at h
  | release e =>
    by_contra hl
    have hne : e ∉ c.refs := hl
    simp [step, hne] at h
  | _ => trivial

end Client

end WasiLibc.DescriptorTable

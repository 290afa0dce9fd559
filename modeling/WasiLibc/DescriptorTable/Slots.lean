import WasiLibc.DescriptorTable.Table

/-!
# WasiLibc.DescriptorTable.Slots

What the functions on a `Table` do to the two views the development takes
of it: the map `Table.denotes` from descriptors to entries, and the bag
`Table.held` of references that the occupied slots own.

`Table.Wf` is the comment on the field `next_fd` in the source ("every entry
below this index is occupied"); it is what makes a scan from the hint find
the lowest free descriptor (`Table.Wf.isLeast_freeFrom`).
-/

namespace WasiLibc.DescriptorTable

open Function

/-! ## The references of a list of slots -/

/-- The references one slot owns: its entry, or nothing. -/
def Item.held (item : Item) : List Entry := if item.occupied then [item.entry] else []

/-- The references a list of slots owns. -/
def heldOf (items : List Item) : List Entry := items.flatMap Item.held

@[simp] theorem Item.held_zero : Item.zero.held = [] := rfl

@[simp] theorem heldOf_nil : heldOf [] = [] := rfl

@[simp] theorem heldOf_cons (item : Item) (items : List Item) :
    heldOf (item :: items) = item.held ++ heldOf items := by
  simp [heldOf]

@[simp] theorem heldOf_append_zero (items : List Item) (k : Nat) :
    heldOf (items ++ List.replicate k Item.zero) = heldOf items := by
  simp [heldOf]

/-- Overwriting a slot trades the references of the old contents for those
of the new. -/
theorem held_append_heldOf_set (items : List Item) (item : Item) :
    (fd : Nat) → fd < items.length →
    ((items[fd]?.getD Item.zero).held ++ heldOf (items.set fd item)).Perm
      (item.held ++ heldOf items) := by
  induction items with
  | nil => intro fd h; simp at h
  | cons a items ih =>
    intro fd h
    cases fd with
    | zero =>
      simp only [List.getElem?_cons_zero, Option.getD_some, List.set_cons_zero, heldOf_cons]
      rw [← List.append_assoc, ← List.append_assoc]
      exact List.perm_append_comm.append_right _
    | succ fd =>
      simp only [List.getElem?_cons_succ, List.set_cons_succ, heldOf_cons]
      have hih := ih fd (by simpa using h)
      -- the reference of the head slot moves out of the way, and back
      refine (List.perm_append_comm_assoc _ _ _).trans ?_
      exact (hih.append_left _).trans (List.perm_append_comm_assoc _ _ _)

namespace Table

/-- The references the table owns. -/
def held (t : Table) : List Entry := heldOf t.entries

/-! ## The map of a table -/

variable {t : Table} {fd : Nat}

theorem denotes_of_len_le (h : t.len ≤ fd) : t.denotes fd = none := by
  have hd : t.slot fd = Item.zero := by
    rw [slot, List.getElem?_eq_none h]; rfl
  simp [denotes, hd, Item.zero]

theorem lt_len_of_denotes (h : t.denotes fd ≠ none) : fd < t.len := by
  by_contra hlen
  exact h (denotes_of_len_le (by omega))

/-- An occupied slot in range is exactly a descriptor that denotes its entry. -/
theorem denotes_eq_some_iff {e : Entry} :
    t.denotes fd = some e ↔ t.slot fd = ⟨true, e⟩ := by
  unfold denotes
  generalize t.slot fd = item
  obtain ⟨occ, e'⟩ := item
  cases occ <;> simp

/-- The slot of a descriptor holds what the descriptor denotes. -/
theorem held_slot (t : Table) (fd : Nat) : (t.slot fd).held = (t.denotes fd).toList := by
  unfold denotes Item.held
  split <;> rfl

/-- Writing an item changes the binding of its descriptor only. -/
theorem denotes_set (item : Item) (n : Nat) (h : fd < t.len) :
    (⟨t.entries.set fd item, n⟩ : Table).denotes =
      update t.denotes fd (if item.occupied then some item.entry else none) := by
  funext i
  by_cases hi : i = fd
  · subst hi
    have hget : (⟨t.entries.set i item, n⟩ : Table).slot i = item := by
      rw [slot, List.getElem?_set_self h]; rfl
    rw [update_self, denotes, hget]
  · have hget : (⟨t.entries.set fd item, n⟩ : Table).slot i = t.slot i := by
      rw [slot, slot, List.getElem?_set_ne (Ne.symm hi)]
    rw [update_of_ne hi, denotes, denotes, hget]

/-! ## The allocation hint -/

/-- The invariant of `next_fd`: it is in range, and every slot below it is
occupied. -/
structure Wf (t : Table) : Prop where
  hint_le : t.nextFd ≤ t.len
  below : ∀ fd < t.nextFd, t.denotes fd ≠ none

theorem wf_empty : empty.Wf := ⟨Nat.le_refl _, fun _ h => absurd h (Nat.not_lt_zero _)⟩

end Table

/-- The scan stops at the first unoccupied slot, or past the last one. -/
theorem skipOccupied_spec (items : List Item) (fd : Nat) :
    fd ≤ skipOccupied items fd ∧
    (∀ i, fd ≤ i → i < skipOccupied items fd →
      (items[i - fd]?.getD Item.zero).occupied = true) ∧
    (items[skipOccupied items fd - fd]?.getD Item.zero).occupied = false := by
  induction items generalizing fd with
  | nil =>
    refine ⟨Nat.le_refl _, fun i h1 h2 => ?_, ?_⟩
    · simp only [skipOccupied] at h2; omega
    · simp [Item.zero]
  | cons item items ih =>
    simp only [skipOccupied]
    split
    case isTrue hocc =>
      obtain ⟨hle, hall, hfree⟩ := ih (fd + 1)
      refine ⟨by omega, fun i h1 h2 => ?_, ?_⟩
      · rcases Nat.eq_or_lt_of_le h1 with rfl | hlt
        · simpa using hocc
        · have hi : i - fd = (i - (fd + 1)) + 1 := by omega
          rw [hi, List.getElem?_cons_succ]
          exact hall i hlt h2
      · have hk : skipOccupied items (fd + 1) - fd =
            (skipOccupied items (fd + 1) - (fd + 1)) + 1 := by omega
        rw [hk, List.getElem?_cons_succ]
        exact hfree
    case isFalse hocc =>
      refine ⟨Nat.le_refl _, fun i h1 h2 => by omega, ?_⟩
      simpa using hocc

namespace Table

private theorem getD_drop_entries (t : Table) (fd i : Nat) (h : fd ≤ i) :
    (t.entries.drop fd)[i - fd]?.getD Item.zero = t.slot i := by
  rw [List.getElem?_drop, Nat.add_sub_cancel' h, slot]

/-- A scan from `fd` finds the least free descriptor from `fd` on. -/
theorem isLeast_freeFrom (t : Table) (fd : Nat) :
    IsLeast {n | fd ≤ n ∧ t.denotes n = none} (t.freeFrom fd) := by
  obtain ⟨hle, hall, hfree⟩ := skipOccupied_spec (t.entries.drop fd) fd
  rw [getD_drop_entries t fd _ hle] at hfree
  refine ⟨⟨hle, ?_⟩, fun n ⟨hn, hnone⟩ => ?_⟩
  · simp [denotes, freeFrom, hfree]
  · by_contra hlt
    have hocc := hall n hn (Nat.lt_of_not_le hlt)
    rw [getD_drop_entries t fd n hn] at hocc
    simp [denotes, hocc] at hnone

variable {t t' : Table}

/-- With a correct hint the scan finds the least free descriptor from any
`arg` on, although it skips everything below the hint. -/
theorem Wf.isLeast_freeFrom (hw : t.Wf) (arg : Nat) :
    IsLeast {n | arg ≤ n ∧ t.denotes n = none}
      (t.freeFrom (if arg < t.nextFd then t.nextFd else arg)) := by
  split
  case isTrue hlt =>
    obtain ⟨⟨hle, hfree⟩, hleast⟩ := t.isLeast_freeFrom t.nextFd
    refine ⟨⟨by omega, hfree⟩, fun n ⟨_, hnone⟩ => hleast ⟨?_, hnone⟩⟩
    by_contra hn
    exact hw.below n (by omega) hnone
  case isFalse => exact t.isLeast_freeFrom arg

/-! ## Growth -/

/-- `Grown t t'`: the array of `t'` is that of `t` with unoccupied slots
appended. -/
def Grown (t t' : Table) : Prop :=
  ∃ k, t' = { t with entries := t.entries ++ List.replicate k Item.zero }

theorem Grown.denotes (h : Grown t t') : t'.denotes = t.denotes := by
  obtain ⟨k, rfl⟩ := h
  funext fd
  have hslot : (⟨t.entries ++ List.replicate k Item.zero, t.nextFd⟩ : Table).slot fd = t.slot fd := by
    simp only [slot]
    by_cases hfd : fd < t.entries.length
    · rw [List.getElem?_append_left hfd]
    · rw [List.getElem?_append_right (by omega), List.getElem?_replicate,
        List.getElem?_eq_none (Nat.le_of_not_lt hfd)]
      split <;> rfl
  rw [Table.denotes, Table.denotes, hslot]

theorem Grown.held (h : Grown t t') : t'.held = t.held := by
  obtain ⟨k, rfl⟩ := h
  exact heldOf_append_zero _ _

theorem Grown.nextFd (h : Grown t t') : t'.nextFd = t.nextFd := by
  obtain ⟨k, rfl⟩ := h
  rfl

theorem Grown.len_le (h : Grown t t') : t.len ≤ t'.len := by
  obtain ⟨k, rfl⟩ := h
  simp [Table.len]

theorem Grown.wf (h : Grown t t') (hw : t.Wf) : t'.Wf := by
  refine ⟨?_, ?_⟩
  · rw [h.nextFd]; exact Nat.le_trans hw.hint_le h.len_le
  · rw [h.nextFd, h.denotes]; exact hw.below

theorem Grown.refl (t : Table) : Grown t t := ⟨0, by simp⟩

end Table

theorem le_growLen {newLen : Nat} (needed : Nat) (h : 0 < newLen) :
    newLen ≤ growLen newLen needed ∧ needed ≤ growLen newLen needed := by
  induction newLen using growLen.induct needed with
  | case1 newLen hc ih =>
    rw [growLen, if_pos hc]
    have := ih (by omega)
    omega
  | case2 newLen hc =>
    rw [growLen, if_neg hc]
    omega

/-- `table_grow` either makes room for `needed` slots, changing no slot, or
reports the failure of `realloc`. -/
theorem tableGrow_cases (t : Table) (needed : Nat) (realloc : Bool) :
    (∃ t', tableGrow t needed realloc = .ok t' ∧ t.Grown t' ∧ needed ≤ t'.len) ∨
    (realloc = false ∧ tableGrow t needed realloc = .error .ENOMEM) := by
  unfold tableGrow
  split
  case isTrue h => exact .inl ⟨t, rfl, Table.Grown.refl t, h⟩
  case isFalse h =>
    cases realloc with
    | false => exact .inr ⟨rfl, rfl⟩
    | true =>
      refine .inl ⟨_, rfl, ⟨_, rfl⟩, ?_⟩
      have hpos : 0 < (if t.len = 0 then minsize else t.len) := by
        split
        · decide
        · omega
      obtain ⟨_, hneed⟩ := le_growLen needed hpos
      simp only [Table.len, List.length_append, List.length_replicate] at *
      omega

/-! ## Binding and unbinding a descriptor -/

namespace Table

variable {t : Table}

/-- Replacing the contents of a slot trades references. -/
theorem held_set {fd : Nat} (item : Item) (n : Nat) (h : fd < t.len) :
    ((t.denotes fd).toList ++ (⟨t.entries.set fd item, n⟩ : Table).held).Perm
      (item.held ++ t.held) := by
  rw [← held_slot]
  exact held_append_heldOf_set t.entries item fd h

/-- A descriptor that denotes an entry holds a reference to it. -/
theorem mem_held_of_denotes {fd : Nat} {e : Entry} (h : t.denotes fd = some e) :
    e ∈ t.held := by
  have hlt : fd < t.len := lt_len_of_denotes (by rw [h]; simp)
  have hmem : (⟨true, e⟩ : Item) ∈ t.entries := by
    have hget := denotes_eq_some_iff.mp h
    rw [slot, List.getElem?_eq_getElem hlt, Option.getD_some] at hget
    exact hget ▸ List.getElem_mem hlt
  exact List.mem_flatMap.mpr ⟨_, hmem, by simp [Item.held]⟩

/-- Occupying a slot keeps the hint correct. -/
theorem Wf.set_occupied (hw : t.Wf) (fd : Nat) (e : Entry) (h : fd < t.len) :
    (⟨t.entries.set fd ⟨true, e⟩, t.nextFd⟩ : Table).Wf := by
  refine ⟨by simpa [len] using hw.hint_le, fun i hi => ?_⟩
  rw [denotes_set _ _ h]
  by_cases hfd : i = fd
  · subst hfd; simp
  · rw [update_of_ne hfd]; exact hw.below i hi

end Table

variable {t : Table} {fd : Nat}

/-- `table_allocate` binds the least free descriptor, or fails with `realloc`. -/
theorem tableAllocate_cases (hw : t.Wf) (e : Entry) (realloc : Bool) :
    (∃ fd t₁, tableAllocate t e realloc = .ok (fd, ⟨t₁.entries.set fd ⟨true, e⟩, fd + 1⟩) ∧
      t.Grown t₁ ∧ fd < t₁.len ∧ IsLeast {n | t.denotes n = none} fd) ∨
    (realloc = false ∧ tableAllocate t e realloc = .error .ENOMEM) := by
  have hleast : IsLeast {n | t.denotes n = none} (t.freeFrom t.nextFd) := by
    have h := hw.isLeast_freeFrom 0
    simp only [Nat.zero_le, true_and] at h
    split at h
    case isTrue => exact h
    case isFalse h0 => rwa [show t.nextFd = 0 by omega]
  unfold tableAllocate
  generalize t.freeFrom t.nextFd = fd at hleast
  by_cases hfd : fd = t.len
  · rw [if_pos hfd]
    obtain ⟨t₁, hok, hg, hlen⟩ | ⟨hr, herr⟩ := tableGrow_cases t (t.len + 1) realloc
    · exact .inl ⟨fd, t₁, by rw [hok]; rfl, hg, by omega, hleast⟩
    · exact .inr ⟨hr, by rw [herr]; rfl⟩
  · rw [if_neg hfd]
    refine .inl ⟨fd, t, rfl, Table.Grown.refl t, ?_, hleast⟩
    -- past the end every descriptor is free, so the least free one is at most `len`
    have := hleast.2 (Table.denotes_of_len_le (Nat.le_refl t.len))
    omega

/-- The hint that `table_allocate` leaves behind is correct. -/
theorem Table.wf_set_least {t₁ : Table} (hg : t.Grown t₁) (e : Entry)
    (hlt : fd < t₁.len) (hleast : IsLeast {n | t.denotes n = none} fd) :
    (⟨t₁.entries.set fd ⟨true, e⟩, fd + 1⟩ : Table).Wf := by
  refine ⟨by simp only [Table.len, List.length_set]; exact hlt, fun i hi => ?_⟩
  rw [Table.denotes_set _ _ hlt, hg.denotes]
  by_cases hfd : i = fd
  · subst hfd; simp
  · rw [update_of_ne hfd]
    intro hnone
    have hle : fd ≤ i := hleast.2 hnone
    have hlt' : i < fd + 1 := hi
    omega

/-- `table_lookup` finds exactly what the descriptor denotes. -/
theorem tableLookup_eq (t : Table) (fd : Int) :
    tableLookup t fd =
      match (if fd < 0 then none else t.denotes fd.toNat) with
      | some e => .ok e
      | none => .error .EBADF := by
  unfold tableLookup
  by_cases hneg : fd < 0
  · simp [hneg]
  · by_cases hlen : t.len ≤ fd.toNat
    · simp [hneg, hlen, Table.denotes_of_len_le hlen]
    · simp only [hneg, hlen, or_self, if_false, Table.denotes]
      split <;> simp_all

/-- `table_remove` unbinds a descriptor that denotes an entry. -/
theorem tableRemove_of_denotes {e : Entry} (h : t.denotes fd = some e) :
    tableRemove t fd = .ok (e, ⟨t.entries.set fd ⟨false, e⟩,
      if fd < t.nextFd then fd else t.nextFd⟩) := by
  have hlt : fd < t.len := Table.lt_len_of_denotes (by rw [h]; simp)
  have hget := Table.denotes_eq_some_iff.mp h
  unfold tableRemove
  rw [if_neg (by simp; omega)]
  simp only [Int.toNat_natCast, hget, if_true]

theorem tableRemove_of_not_denotes {fd : Int}
    (h : (if fd < 0 then none else t.denotes fd.toNat) = none) :
    tableRemove t fd = .error .EBADF := by
  unfold tableRemove
  by_cases hneg : fd < 0
  · simp [hneg]
  · rw [if_neg hneg] at h
    by_cases hlen : t.len ≤ fd.toNat
    · simp [hneg, hlen]
    · simp only [hneg, hlen, or_self, if_false]
      split
      case isTrue hocc => simp [Table.denotes, hocc] at h
      case isFalse => rfl

/-- Lowering the hint to the removed descriptor keeps it correct. -/
theorem Table.Wf.set_removed (hw : t.Wf) (e : Entry) (h : fd < t.len) :
    (⟨t.entries.set fd ⟨false, e⟩, if fd < t.nextFd then fd else t.nextFd⟩ : Table).Wf := by
  refine ⟨?_, fun i hi => ?_⟩
  · have := hw.hint_le
    simp only [Table.len, List.length_set] at *
    split <;> omega
  · simp only at hi
    rw [Table.denotes_set _ _ h, update_of_ne (by split at hi <;> omega)]
    exact hw.below i (by split at hi <;> omega)

end WasiLibc.DescriptorTable

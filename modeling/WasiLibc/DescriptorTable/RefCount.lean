import WasiLibc.DescriptorTable.Slots

/-!
# WasiLibc.DescriptorTable.RefCount

Exact reference counting.  `Exact inserted held o` says that the objects `o`
are accounted for by the bag `held` of references that exist (one for each
occupied slot, one for each strong reference a client owns) and by the log
`inserted` of the entries handed to `descriptor_table_insert`:

* every count is the number of references to its object;
* the inserted objects are the freed ones together with the held ones, each
  once;
* `live_descriptors` counts the held objects.

`descriptor_table_entry_inc`, `descriptor_table_entry_dec` and the
initialisation in `descriptor_table_insert` each move one reference in or
out of the bag; the entry points of the table are compositions of the three.
-/

namespace WasiLibc.DescriptorTable

open Function

/-- The objects are exactly accounted for by the references `held`. -/
structure Exact (inserted held : List Entry) (o : Objects) : Prop where
  cnt : ∀ d, o.cnt d = held.countP (fun e => e.data = d)
  uniq : ∀ e ∈ held, ∀ e' ∈ held, e.data = e'.data → e = e'
  once : inserted.Perm (o.freed ++ held.dedup)
  live : o.liveDescriptors = held.dedup.length

namespace Exact

variable {inserted held held' : List Entry} {o : Objects} {e : Entry}

/-- Only the bag of references matters, not its order. -/
theorem perm (h : Exact inserted held o) (hp : held.Perm held') : Exact inserted held' o where
  cnt d := by rw [h.cnt d, hp.countP_eq]
  uniq e he e' he' := h.uniq e (hp.mem_iff.mpr he) e' (hp.mem_iff.mpr he')
  once := h.once.trans (hp.dedup.append_left _)
  live := by rw [h.live, hp.dedup.length_eq]

theorem cnt_pos (h : Exact inserted held o) (he : e ∈ held) : 0 < o.cnt e.data := by
  rw [h.cnt, List.countP_pos_iff]
  exact ⟨e, he, by simp⟩

theorem not_mem_of_cnt_eq_zero (h : Exact inserted held o) (h0 : o.cnt e.data = 0) :
    ∀ e' ∈ held, e'.data ≠ e.data := by
  intro e' he' hd
  have := h.cnt_pos he'
  rw [hd] at this
  omega

private theorem countP_cons_data (held : List Entry) (e : Entry) (d : Nat) :
    (e :: held).countP (fun e => e.data = d) =
      held.countP (fun e => e.data = d) + if e.data = d then 1 else 0 := by
  rw [List.countP_cons]
  by_cases hd : e.data = d <;> simp [hd]

/-- A new reference to a held object. -/
theorem inc (h : Exact inserted held o) (he : e ∈ held) :
    ∃ o', descriptorTableEntryInc o e = some o' ∧ Exact inserted (e :: held) o' ∧
      o'.freed = o.freed := by
  refine ⟨_, if_pos (h.cnt_pos he), ⟨fun d => ?_, ?_, ?_, ?_⟩, rfl⟩
  · rw [countP_cons_data]
    by_cases hd : e.data = d
    · subst hd; simp [h.cnt]
    · simp [update_of_ne (Ne.symm hd), h.cnt, hd]
  · intro a ha b hb
    have hmem : ∀ x ∈ e :: held, x ∈ held := by
      intro x hx
      rcases List.mem_cons.mp hx with rfl | hx
      · exact he
      · exact hx
    exact h.uniq a (hmem a ha) b (hmem b hb)
  · simpa [List.dedup_cons_of_mem he] using h.once
  · simpa [List.dedup_cons_of_mem he] using h.live

/-- Dropping a reference frees the object precisely when it was the last. -/
theorem dec (h : Exact inserted (e :: held) o) :
    ∃ o', descriptorTableEntryDec o e = some o' ∧ Exact inserted held o' ∧
      o'.freed = o.freed ++ (if e ∈ held then [] else [e]) := by
  have hcnt : o.cnt e.data = held.countP (fun x => x.data = e.data) + 1 := by
    rw [h.cnt, countP_cons_data, if_pos rfl]
  have hcnt' : ∀ d, update o.cnt e.data (o.cnt e.data - 1) d =
      held.countP (fun x => x.data = d) := by
    intro d
    by_cases hd : d = e.data
    · subst hd; rw [update_self, hcnt]; omega
    · rw [update_of_ne hd, h.cnt, countP_cons_data, if_neg (Ne.symm hd), Nat.add_zero]
  have huniq : ∀ a ∈ held, ∀ b ∈ held, a.data = b.data → a = b := fun a ha b hb =>
    h.uniq a (List.mem_cons_of_mem _ ha) b (List.mem_cons_of_mem _ hb)
  unfold descriptorTableEntryDec
  rw [if_pos (by omega)]
  simp only [update_self]
  by_cases he : e ∈ held
  · -- other references remain
    have hpos : 0 < held.countP (fun x => x.data = e.data) :=
      List.countP_pos_iff.mpr ⟨e, he, by simp⟩
    rw [if_neg (by omega), if_pos he]
    refine ⟨_, rfl, ⟨hcnt', huniq, ?_, ?_⟩, by simp⟩
    · simpa [List.dedup_cons_of_mem he] using h.once
    · simpa [List.dedup_cons_of_mem he] using h.live
  · -- the last reference: no other entry shares the address, so the count is 0
    have hzero : held.countP (fun x => x.data = e.data) = 0 := by
      rw [List.countP_eq_zero]
      intro x hx
      have : x.data ≠ e.data := fun hd =>
        he (h.uniq x (List.mem_cons_of_mem _ hx) e List.mem_cons_self hd ▸ hx)
      simpa using this
    have hlive : o.liveDescriptors = held.dedup.length + 1 := by
      rw [h.live, List.dedup_cons_of_notMem he, List.length_cons]
    rw [if_pos (by omega), if_neg he]
    refine ⟨_, if_pos ⟨by simp; omega, by simp only; omega⟩, ⟨hcnt', huniq, ?_, ?_⟩, rfl⟩
    · have honce := h.once
      rw [List.dedup_cons_of_notMem he] at honce
      exact honce.trans (by simp)
    · simp only; omega

/-- A fresh object enters with one reference. -/
theorem insert (h : Exact inserted held o) (h0 : o.cnt e.data = 0) :
    Exact (e :: inserted) (e :: held) { o with
      cnt := update o.cnt e.data 1
      liveDescriptors := o.liveDescriptors + 1 } := by
  have hfresh := h.not_mem_of_cnt_eq_zero h0
  have hnot : e ∉ held := fun he => hfresh e he rfl
  refine ⟨fun d => ?_, ?_, ?_, ?_⟩
  · rw [countP_cons_data]
    by_cases hd : e.data = d
    · subst hd
      have := h.cnt e.data
      simp; omega
    · simp [update_of_ne (Ne.symm hd), h.cnt, hd]
  · intro a ha b hb hab
    rcases List.mem_cons.mp ha with hae | ha <;> rcases List.mem_cons.mp hb with hbe | hb
    · rw [hae, hbe]
    · exact absurd (hae ▸ hab.symm) (hfresh b hb)
    · exact absurd (hbe ▸ hab) (hfresh a ha)
    · exact h.uniq a ha b hb hab
  · rw [List.dedup_cons_of_notMem hnot]
    exact (h.once.cons e).trans List.perm_middle.symm
  · simp [List.dedup_cons_of_notMem hnot, h.live]

/-- Dropping the reference of a slot. -/
theorem dropItem {item : Item} (h : Exact inserted (item.held ++ held) o) :
    ∃ o', dropItem o item = some o' ∧ Exact inserted held o' ∧ o.freed <+: o'.freed := by
  unfold DescriptorTable.dropItem
  unfold Item.held at h
  split at h
  case isTrue hocc =>
    obtain ⟨o', hdec, h', hfreed⟩ := h.dec
    exact ⟨o', by rw [if_pos hocc, hdec], h', ⟨_, hfreed.symm⟩⟩
  case isFalse hocc => exact ⟨o, if_neg hocc, h, List.prefix_rfl⟩

/-- The loop of `clear` drops the references of the slots, one at a time: at
each turn the references that still exist are those of the slots to come and
those in `refs`. -/
theorem clearItems {refs : List Entry} (items : List Item) :
    ∀ {o : Objects}, Exact inserted (heldOf items ++ refs) o →
    ∃ o', clearItems items o = some o' ∧ Exact inserted refs o' ∧ o.freed <+: o'.freed := by
  induction items with
  | nil => intro o h; exact ⟨o, rfl, h, List.prefix_rfl⟩
  | cons item items ih =>
    intro o h
    rw [heldOf_cons, List.append_assoc] at h
    obtain ⟨o₁, hdrop, h₁, hpre₁⟩ := h.dropItem
    obtain ⟨o₂, hclear, h₂, hpre₂⟩ := ih h₁
    exact ⟨o₂, by rw [DescriptorTable.clearItems, hdrop]; exact hclear, h₂, hpre₁.trans hpre₂⟩

end Exact

end WasiLibc.DescriptorTable

import WasiLibc.Poll.Select

/-!
# WasiLibc.Poll.FdSets

The operations on an `fd_set` that programs use: `FD_ZERO`, `FD_SET`,
`FD_CLR`, `FD_COPY` and `FD_ISSET`.  The array of members is not ordered, and
a member that is deleted leaves its place to the last one; the array is a set
as long as no member is in it twice (`FdSet.Is`).
-/

namespace WasiLibc.Poll

open Function

namespace FdSet

/-! ## The operations -/

/-- `FD_ISSET`. -/
def isset (fd : Int) (set : FdSet) : Bool := set.fds.any (· = fd)

/-- `FD_SET`. -/
def insert (fd : Int) (set : FdSet) : Except Fault FdSet :=
  if set.isset fd then .ok set else set.push fd

/-- The members after `*p = e[-1]` and `nfds = n - 1`, where `p` points to the
first place of `fd`. -/
def moveLast (fd : Int) (fds : List Int) : List Int :=
  (fds.set (fds.idxOf fd) (fds.getLastD 0)).dropLast

theorem length_moveLast_le (fd : Int) (fds : List Int) : (moveLast fd fds).length ≤ fds.length := by
  simp [moveLast]

/-- `FD_CLR`. -/
def clr (fd : Int) (set : FdSet) : FdSet :=
  if set.isset fd then
    ⟨moveLast fd set.fds, (length_moveLast_le fd set.fds).trans set.bounded⟩
  else set

/-! ## One set -/

theorem isset_iff {fd : Int} {set : FdSet} : set.isset fd = true ↔ fd ∈ set.fds := by
  simp [isset]

/-- Up to order the last member takes the place of the one that is deleted. -/
theorem moveLast_perm {fd : Int} {fds : List Int} (h : fd ∈ fds) :
    (moveLast fd fds).Perm (fds.erase fd) := by
  obtain ⟨before, after, rfl, hnot⟩ := List.eq_append_cons_of_mem h
  have hidx : (before ++ fd :: after).idxOf fd = before.length := by
    rw [List.idxOf_append_of_notMem hnot, List.idxOf_cons_self, Nat.add_zero]
  rw [moveLast, hidx, List.erase_append_right _ hnot, List.erase_cons_head]
  rcases List.eq_nil_or_concat after with rfl | ⟨rest, last, rfl⟩
  · simp
  · rw [List.concat_eq_append]
    have hlast : (before ++ fd :: (rest ++ [last])).getLastD 0 = last := by
      rw [← List.cons_append, ← List.append_assoc, List.getLastD_concat]
    have hset : (before ++ fd :: (rest ++ [last])).set before.length last =
        (before ++ last :: rest) ++ [last] := by simp
    rw [hlast, hset, List.dropLast_concat]
    exact (List.perm_append_singleton last rest).symm.append_left before

/-- The array holds the elements of `s`, each of them once. -/
structure Is (set : FdSet) (s : Set Int) : Prop where
  nodup : set.fds.Nodup
  mem : ∀ x, x ∈ set.fds ↔ x ∈ s
  range : ∀ x ∈ s, 0 ≤ x ∧ x < FD_SETSIZE

variable {set : FdSet} {s : Set Int} {fd : Int}

theorem is_zero : zero.Is ∅ := ⟨List.nodup_nil, by simp [zero], by simp⟩

/-- Since no descriptor is stored twice, there is room for another. -/
theorem Is.length_lt (h : set.Is s) (hrange : 0 ≤ fd ∧ fd < FD_SETSIZE) (hnot : fd ∉ s) :
    set.fds.length < FD_SETSIZE := by
  have hnodup : (fd :: set.fds).Nodup :=
    List.nodup_cons.mpr ⟨fun hmem => hnot ((h.mem fd).mp hmem), h.nodup⟩
  have hsub : (fd :: set.fds).toFinset ⊆ Finset.Ico 0 (FD_SETSIZE : Int) := by
    intro x hx
    rw [Finset.mem_Ico]
    rcases List.mem_cons.mp (List.mem_toFinset.mp hx) with rfl | hmem
    · exact hrange
    · exact h.range x ((h.mem x).mp hmem)
  have hcard := Finset.card_le_card hsub
  rw [List.toFinset_card_of_nodup hnodup, Int.card_Ico, List.length_cons] at hcard
  omega

theorem Is.insert (h : set.Is s) (hrange : 0 ≤ fd ∧ fd < FD_SETSIZE) :
    ∃ new, set.insert fd = .ok new ∧ new.Is (Insert.insert fd s) := by
  have hrange' : ∀ x ∈ Insert.insert fd s, 0 ≤ x ∧ x < FD_SETSIZE := by
    rintro x (rfl | hx)
    · exact hrange
    · exact h.range x hx
  by_cases hmem : fd ∈ s
  · refine ⟨set, if_pos (isset_iff.mpr ((h.mem fd).mpr hmem)), ?_⟩
    rw [Set.insert_eq_of_mem hmem]
    exact h
  · have hnot : fd ∉ set.fds := fun hfd => hmem ((h.mem fd).mp hfd)
    obtain ⟨new, hnew, hfds⟩ := push_ok fd (h.length_lt hrange hmem)
    refine ⟨new, (if_neg (mt isset_iff.mp hnot)).trans hnew, ?_, fun x => ?_, hrange'⟩
    · rw [hfds]
      exact List.Nodup.append h.nodup (List.nodup_singleton fd) (by simpa using hnot)
    · rw [hfds, List.mem_append, List.mem_singleton, h.mem x, Set.mem_insert_iff, or_comm]

theorem Is.clr (h : set.Is s) : (set.clr fd).Is (s \ {fd}) := by
  by_cases hmem : fd ∈ set.fds
  · have hperm : (set.clr fd).fds.Perm (set.fds.erase fd) := by
      rw [FdSet.clr, if_pos (isset_iff.mpr hmem)]
      exact moveLast_perm hmem
    refine ⟨hperm.nodup_iff.mpr (h.nodup.erase fd), fun x => ?_, fun x hx => h.range x hx.1⟩
    rw [hperm.mem_iff, h.nodup.mem_erase_iff, h.mem x, and_comm]
    rfl
  · have hs : s \ {fd} = s := Set.sdiff_singleton_eq_self fun hfd => hmem ((h.mem fd).mpr hfd)
    rw [FdSet.clr, if_neg (mt isset_iff.mp hmem), hs]
    exact h

end FdSet

/-! ## Sequences -/

variable {ι : Type} [DecidableEq ι]

/-- An operation on the sets of a program. -/
inductive SetOp (ι : Type) where
  | zero (i : ι)
  | set (fd : Int) (i : ι)
  | clr (fd : Int) (i : ι)
  /-- `FD_COPY(from, to)`. -/
  | copy (source target : ι)

namespace SetOp

/-- The operation on the sets in memory. -/
def exec : SetOp ι → (ι → FdSet) → Except Fault (ι → FdSet)
  | zero i, m => .ok (update m i .zero)
  | set fd i, m => return update m i (← (m i).insert fd)
  | clr fd i, m => .ok (update m i ((m i).clr fd))
  | copy source target, m => .ok (update m target (m source))

/-- The operation on sets of numbers. -/
def meaning : SetOp ι → (ι → Set Int) → ι → Set Int
  | zero i, m => update m i ∅
  | set fd i, m => update m i (insert fd (m i))
  | clr fd i, m => update m i (m i \ {fd})
  | copy source target, m => update m target (m source)

/-- The descriptor may be in a set. -/
def InRange : SetOp ι → Prop
  | set fd _ => 0 ≤ fd ∧ fd < FD_SETSIZE
  | clr fd _ => 0 ≤ fd ∧ fd < FD_SETSIZE
  | _ => True

end SetOp

variable {sets : ι → FdSet} {m : ι → Set Int}

theorem is_update (h : ∀ i, (sets i).Is (m i)) (i : ι)
    {new : FdSet} {s : Set Int} (hnew : new.Is s) (j : ι) :
    (update sets i new j).Is (update m i s j) := by
  by_cases hj : j = i
  · subst hj
    rwa [update_self, update_self]
  · rw [update_of_ne hj, update_of_ne hj]
    exact h j

/-- One operation. -/
theorem SetOp.exec_is (h : ∀ i, (sets i).Is (m i))
    {op : SetOp ι} (hop : op.InRange) :
    ∃ sets', op.exec sets = .ok sets' ∧ ∀ i, (sets' i).Is (op.meaning m i) := by
  cases op with
  | zero i => exact ⟨_, rfl, is_update h i FdSet.is_zero⟩
  | set fd i =>
    obtain ⟨new, hnew, his⟩ := (h i).insert hop
    refine ⟨update sets i new, ?_, is_update h i his⟩
    show (sets i).insert fd >>= _ = _
    rw [hnew]
    rfl
  | clr fd i => exact ⟨_, rfl, is_update h i (h i).clr⟩
  | copy source target => exact ⟨_, rfl, is_update h target (h source)⟩

theorem foldlM_exec_is {ops : List (SetOp ι)} (hops : ∀ op ∈ ops, op.InRange) (h : ∀ i, (sets i).Is (m i)) :
    ∃ sets', ops.foldlM (fun sets op => op.exec sets) sets = .ok sets' ∧
      ∀ i, (sets' i).Is (ops.foldl (fun m op => op.meaning m) m i) := by
  induction ops generalizing sets m with
  | nil => exact ⟨sets, rfl, h⟩
  | cons op ops ih =>
    obtain ⟨sets₁, hexec, h₁⟩ := SetOp.exec_is h (hops op List.mem_cons_self)
    obtain ⟨sets₂, hrun, h₂⟩ := ih (fun op hop => hops op (List.mem_cons_of_mem _ hop)) h₁
    refine ⟨sets₂, ?_, h₂⟩
    rw [List.foldlM_cons, hexec]
    exact hrun

/-- **An `fd_set` is a finite set.**  After any sequence of operations on sets
that were zeroed, `FD_ISSET` holds of the elements of the set that the same
operations make of the empty one.  No descriptor is stored twice, and no
operation writes behind an array. -/
theorem fd_sets_correct (ops : List (SetOp ι)) (hops : ∀ op ∈ ops, op.InRange) :
    ∃ sets : ι → FdSet, ops.foldlM (fun sets op => op.exec sets) (fun _ => .zero) = .ok sets ∧
      ∀ i, (sets i).fds.Nodup ∧
        ∀ x, (sets i).isset x = true ↔ x ∈ ops.foldl (fun m op => op.meaning m) (fun _ => ∅) i := by
  obtain ⟨sets, hrun, h⟩ := foldlM_exec_is hops fun _ : ι => FdSet.is_zero
  exact ⟨sets, hrun, fun i => ⟨(h i).nodup, fun x => FdSet.isset_iff.trans ((h i).mem x)⟩⟩

/-- The first of three members is deleted, in a copy. -/
theorem fd_sets_correct_copy :
    ∃ sets : Bool → FdSet, [SetOp.set 3 true, .set 7 true, .set 5 true, .copy true false,
      .clr 3 false].foldlM (fun sets op => op.exec sets) (fun _ => .zero) = .ok sets ∧
      (sets false).fds.Nodup ∧ ((sets false).isset 5 = true ↔ 5 ∈ ({5, 7} : Set Int)) := by
  have hops : ∀ op ∈ [SetOp.set 3 true, .set 7 true, .set 5 true, .copy true false, .clr 3 false],
      op.InRange := by
    simp [SetOp.InRange, FD_SETSIZE]
  obtain ⟨sets, hrun, h⟩ := fd_sets_correct _ hops
  refine ⟨sets, hrun, (h false).1, ((h false).2 5).trans ?_⟩
  simp [SetOp.meaning]

end WasiLibc.Poll

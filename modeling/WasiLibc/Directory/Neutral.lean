import WasiLibc.Directory.Scan

/-!
# WasiLibc.Directory.Neutral

What `scandirat` holds when it returns.

`Owns w held` says that the log is balanced and that exactly `held` is held
after it.  Every function gets one rule that says how it changes what is held,
and `scandirat_neutral_iff` is put together from them.
-/

namespace WasiLibc.Directory.Scan

open Wp Linear Errno

/-- Exactly `held` is open or allocated, and new numbers are new. -/
structure Owns (w : World) (held : Multiset Resource) : Prop where
  holds : ∃ l : List Resource, (l : Multiset Resource) = held ∧ Holds w.log l
  fresh : ∀ r ∈ held, r.number < w.next

variable {D ε : Type} {mem : Memory} {T : Interface D ε} {ok : Fault → Prop} {w : World}
  {held : Multiset Resource}

/-- The log says what is held. -/
theorem Owns.unique {held' : Multiset Resource} (h : Owns w held) (h' : Owns w held') :
    held = held' := by
  obtain ⟨l, rfl, hl⟩ := h.holds
  obtain ⟨l', rfl, hl'⟩ := h'.holds
  refine Multiset.coe_eq_coe.mpr (List.perm_iff_count.mpr fun r => ?_)
  have := hl.count r
  have := hl'.count r
  omega

/-- Only the log and the next number matter. -/
theorem Owns.congr {w' : World} (h : Owns w held) (hlog : w'.log = w.log)
    (hnext : w'.next = w.next) : Owns w' held := by
  refine ⟨?_, fun r hr => hnext ▸ h.fresh r hr⟩
  rw [hlog]
  exact h.holds

/-! ## Memory -/

/-- The blocks that a pointer stands for. -/
def blocks : Option Nat → Multiset Resource
  | none => 0
  | some a => {.block a}

variable {p : Option Nat} {d : Dirp D} {ns : Names ε}

/-- What a stream holds apart from the descriptor. -/
def Dirp.blocks (d : Dirp D) : Multiset Resource :=
  Scan.blocks (some d.dirp) + Scan.blocks d.buffer + Scan.blocks d.dirent

/-- The blocks of copies. -/
def entryBlocks (ns : List (Name ε)) : Multiset Resource := (ns.map fun n => .block n.addr : List Resource)

/-- The array and the copies. -/
def Names.blocks (ns : Names ε) : Multiset Resource := Scan.blocks ns.array + entryBlocks ns.list

end WasiLibc.Directory.Scan

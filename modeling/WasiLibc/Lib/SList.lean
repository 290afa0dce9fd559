import Mathlib

/-!
# WasiLibc.Lib.SList

Singly linked lists in a memory.

A memory maps the addresses of a type `α` to nodes of a type `β`, and `next`
is the link of a node.  `Chain next mem q ps` says that the nodes met from the
pointer `q` on are those at `ps`:

* `Chain.frame` — a chain only depends on the nodes at its addresses;
* `Chain.concat` — a node that the last one is made to point to is the new last.
-/

namespace WasiLibc.SList

open Function

variable {α β : Type*}

/-- The nodes met from `q` on are those at `ps`. -/
def Chain (next : β → Option α) (mem : α → Option β) : Option α → List α → Prop
  | q, [] => q = none
  | q, p :: ps => q = some p ∧ ∃ n, mem p = some n ∧ Chain next mem (next n) ps

variable {next : β → Option α} {mem mem' : α → Option β} {q : Option α} {p : α} {ps : List α}

/-- The pointer is to the first node. -/
theorem Chain.head (h : Chain next mem q ps) : q = ps.head? := by
  cases ps with
  | nil => exact h
  | cons p ps => exact h.1

/-- A chain only depends on the nodes at its addresses. -/
theorem Chain.frame (h : Chain next mem q ps) (hmem : ∀ p ∈ ps, mem' p = mem p) :
    Chain next mem' q ps := by
  induction ps generalizing q with
  | nil => exact h
  | cons p ps ih =>
    obtain ⟨hq, n, hn, hrest⟩ := h
    have hp : mem' p = mem p := hmem p List.mem_cons_self
    exact ⟨hq, n, hp.trans hn, ih hrest fun p' hp' => hmem p' (List.mem_cons_of_mem p hp')⟩

/-- Only the link of a node matters. -/
theorem Chain.relink [DecidableEq α] {n n' : β} (h : Chain next mem q ps) (hn : mem p = some n)
    (hnext : next n' = next n) : Chain next (update mem p (some n')) q ps := by
  induction ps generalizing q with
  | nil => exact h
  | cons p' ps ih =>
    obtain ⟨hq, n₀, hn₀, hrest⟩ := h
    by_cases hp : p' = p
    · subst hp
      cases hn.symm.trans hn₀
      exact ⟨hq, n', update_self .., hnext.symm ▸ ih hrest⟩
    · exact ⟨hq, n₀, (update_of_ne hp ..).trans hn₀, ih hrest⟩

/-- A node that the last one is made to point to is the new last. -/
theorem Chain.concat [DecidableEq α] {last : α} {n n' : β}
    (h : Chain next mem q (ps ++ [last])) (hnodup : (ps ++ [last]).Nodup)
    (hlast : next n = some p) (hp : p ∉ ps ++ [last]) (hnew : mem p = some n')
    (hend : next n' = none) :
    Chain next (update mem last (some n)) q (ps ++ [last] ++ [p]) := by
  induction ps generalizing q with
  | nil =>
    have hne : p ≠ last := by simpa using hp
    obtain ⟨hq, -⟩ := h
    refine ⟨hq, n, update_self .., hlast, n', ?_, hend⟩
    rw [update_of_ne hne, hnew]
  | cons p' ps ih =>
    obtain ⟨hq, n₀, hn₀, hrest⟩ := h
    rw [List.cons_append, List.nodup_cons] at hnodup
    have hne : p' ≠ last := fun heq => hnodup.1 (by simp [heq])
    refine ⟨hq, n₀, (update_of_ne hne ..).trans hn₀, ih hrest hnodup.2 ?_⟩
    exact fun hin => hp (List.mem_cons_of_mem p' hin)

/-- The nodes are there. -/
theorem Chain.mem_isSome (h : Chain next mem q ps) (hp : p ∈ ps) : ∃ n, mem p = some n := by
  induction ps generalizing q with
  | nil => cases hp
  | cons p' ps ih =>
    obtain ⟨-, n, hn, hrest⟩ := h
    rcases List.mem_cons.mp hp with rfl | hp
    · exact ⟨n, hn⟩
    · exact ih hrest hp

end WasiLibc.SList

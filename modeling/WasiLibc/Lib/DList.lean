import Mathlib

/-!
# WasiLibc.Lib.DList

Intrusive doubly linked lists over a memory of links.

A memory gives every node of a type `α` its two links.  `Chain m p l xs e`
says that the nodes met from `l` on are `xs`, up to the pointer `e`, with
back links that start at `p`; a whole list is `IsList m l xs`.  The two
operations of such lists are `insert` and `remove`:

* `IsList.insert` — a node put in front is the new head;
* `IsList.remove` — a node taken out leaves the others, in their order;
* `IsList.frame` — a list only depends on the links of its nodes, and
  `insert_of_ne`, `remove_of_notMem` say which links the operations touch.
-/

namespace WasiLibc.DList

open Function

/-- The links of a node. -/
structure Link (α : Type*) where
  next : Option α
  prev : Option α
  deriving DecidableEq, Repr

variable {α : Type*}

/-! ## Chains -/

/-- The nodes from `l` up to `e` are `xs`, and the first one points back to
`p`. -/
def Chain (m : α → Link α) : Option α → Option α → List α → Option α → Prop
  | _, l, [], e => l = e
  | p, l, x :: xs, e => l = some x ∧ (m x).prev = p ∧ Chain m (some x) (m x).next xs e

/-- The last of the nodes, or the back link of the first. -/
def lastOr (p : Option α) (xs : List α) : Option α := xs.getLast?.or p

@[simp] theorem lastOr_nil (p : Option α) : lastOr p [] = p := rfl

@[simp] theorem lastOr_cons (p : Option α) (x : α) (xs : List α) :
    lastOr p (x :: xs) = lastOr (some x) xs := by
  cases xs <;> simp [lastOr, List.getLast?_cons]

@[simp] theorem lastOr_concat (p : Option α) (xs : List α) (x : α) :
    lastOr p (xs ++ [x]) = some x := by
  simp [lastOr]

variable {m m' : α → Link α} {p l e : Option α} {x : α} {xs as bs : List α}

theorem chain_append :
    Chain m p l (as ++ bs) e ↔ ∃ mid, Chain m p l as mid ∧ Chain m (lastOr p as) mid bs e := by
  induction as generalizing p l with
  | nil => simp [Chain]
  | cons a as ih => simp [Chain, ih, and_assoc]

/-- A chain only depends on the links of its nodes. -/
theorem Chain.frame (h : Chain m p l xs e) (hm : ∀ x ∈ xs, m' x = m x) : Chain m' p l xs e := by
  induction xs generalizing p l with
  | nil => exact h
  | cons x xs ih =>
    obtain ⟨hl, hprev, hrest⟩ := h
    have hx : m' x = m x := hm x List.mem_cons_self
    exact ⟨hl, hx ▸ hprev, hx ▸ ih hrest fun y hy => hm y (List.mem_cons_of_mem _ hy)⟩

/-- The links to and from a node in the middle. -/
theorem Chain.middle (h : Chain m p l (as ++ x :: bs) e) :
    Chain m p l as (some x) ∧ (m x).prev = lastOr p as ∧ Chain m (some x) (m x).next bs e := by
  obtain ⟨mid, has, rfl, hprev, hbs⟩ := chain_append.mp h
  exact ⟨has, hprev, hbs⟩

/-! ## Lists -/

/-- The list that starts at `l` consists of the nodes `xs`. -/
structure IsList (m : α → Link α) (l : Option α) (xs : List α) : Prop where
  chain : Chain m none l xs none
  nodup : xs.Nodup

theorem IsList.nil : IsList m none ([] : List α) := ⟨rfl, List.nodup_nil⟩

theorem IsList.frame (h : IsList m l xs) (hm : ∀ x ∈ xs, m' x = m x) : IsList m' l xs :=
  ⟨h.chain.frame hm, h.nodup⟩

/-- The pointer to a list is null when the list is empty, and else points to
its first node. -/
theorem IsList.head (h : IsList m l xs) : l = xs.head? := by
  cases xs with
  | nil => exact h.chain
  | cons x xs => exact h.chain.1

/-! ## The operations -/

variable [DecidableEq α]

def setNext (m : α → Link α) (x : α) (next : Option α) : α → Link α :=
  update m x { m x with next := next }

def setPrev (m : α → Link α) (x : α) (prev : Option α) : α → Link α :=
  update m x { m x with prev := prev }

/-- Put `node` in front of the list. -/
def insert (m : α → Link α) (list : Option α) (node : α) : (α → Link α) × Option α :=
  let m := update m node ⟨list, none⟩
  match list with
  | some head => (setPrev m head (some node), some node)
  | none => (m, some node)

/-- Take `node` out of the list. -/
def remove (m : α → Link α) (list : Option α) (node : α) : (α → Link α) × Option α :=
  let (m, list) :=
    match (m node).prev with
    | some prev => (setNext m prev (m node).next, list)
    | none => (m, (m node).next)
  match (m node).next with
  | some next => (setPrev m next (m node).prev, list)
  | none => (m, list)

/-- The last node can be given another successor. -/
theorem Chain.setNext (h : Chain m p l (as ++ [x]) e) (hx : x ∉ as) (e' : Option α) :
    Chain (setNext m x e') p l (as ++ [x]) e' := by
  obtain ⟨mid, has, hmid, hprev, -⟩ := chain_append.mp h
  refine chain_append.mpr ⟨mid, has.frame fun y hy => ?_, hmid, ?_, ?_⟩
  · exact update_of_ne (ne_of_mem_of_not_mem hy hx) _ _
  · simpa [DList.setNext] using hprev
  · simp [DList.setNext, Chain]

/-- The first node can be given another predecessor. -/
theorem Chain.setPrev (h : Chain m p l (x :: xs) e) (hx : x ∉ xs) (p' : Option α) :
    Chain (setPrev m x p') p' l (x :: xs) e := by
  obtain ⟨hl, -, hrest⟩ := h
  refine ⟨hl, by simp [DList.setPrev], ?_⟩
  have hnext : (DList.setPrev m x p' x).next = (m x).next := by simp [DList.setPrev]
  rw [hnext]
  exact hrest.frame fun y hy => update_of_ne (ne_of_mem_of_not_mem hy hx) _ _

theorem IsList.insert (h : IsList m l xs) (hx : x ∉ xs) :
    IsList (insert m l x).1 (insert m l x).2 (x :: xs) := by
  obtain ⟨hchain, hnodup⟩ := h
  have hframe : Chain (update m x ⟨l, none⟩) none l xs none :=
    hchain.frame fun y hy => update_of_ne (ne_of_mem_of_not_mem hy hx) _ _
  refine ⟨?_, List.nodup_cons.mpr ⟨hx, hnodup⟩⟩
  cases xs with
  | nil =>
    obtain rfl : l = none := hchain
    simp [DList.insert, Chain]
  | cons y ys =>
    obtain rfl : l = some y := hchain.1
    have hne : x ≠ y := fun hxy => hx (hxy ▸ List.mem_cons_self)
    refine ⟨rfl, ?_, ?_⟩
    · simp [DList.insert, DList.setPrev, hne]
    · have hnext : ((DList.insert m (some y) x).1 x).next = some y := by
        simp [DList.insert, DList.setPrev, hne]
      rw [hnext]
      exact hframe.setPrev (List.nodup_cons.mp hnodup).1 (some x)

/-- Inserting touches the links of the node and of the head only. -/
theorem insert_of_ne {y : α} (hy : y ≠ x) (hl : l ≠ some y) : (insert m l x).1 y = m y := by
  cases l with
  | none => simp [DList.insert, hy]
  | some h =>
    have hne : y ≠ h := fun hyh => hl (hyh ▸ rfl)
    simp [DList.insert, setPrev, hy, hne]

/-- Leaving out a node in the middle: its successor points back to its
predecessor. -/
theorem Chain.relink {next : Option α} (h : Chain m (some x) next bs none) (hbs : bs.Nodup)
    (p' : Option α) :
    Chain (match next with | some y => DList.setPrev m y p' | none => m) p' next bs none := by
  cases bs with
  | nil => obtain rfl : next = none := h; exact rfl
  | cons b bs =>
    obtain rfl : next = some b := h.1
    exact h.setPrev (List.nodup_cons.mp hbs).1 p'

theorem IsList.remove_append (h : IsList m l (as ++ x :: bs)) :
    IsList (remove m l x).1 (remove m l x).2 (as ++ bs) := by
  obtain ⟨hchain, hnodup⟩ := h
  obtain ⟨has, hprev, hbs⟩ := hchain.middle
  have hnd := List.nodup_append.mp hnodup
  obtain ⟨hxbs, hbsnd⟩ := List.nodup_cons.mp hnd.2.1
  have hdisj : ∀ y ∈ as, y ∉ x :: bs := fun y hy hy' => hnd.2.2 y hy y hy' rfl
  have hnodup' : (as ++ bs).Nodup := hnodup.sublist
    (List.Sublist.append_left (List.sublist_cons_self x bs) as)
  refine ⟨?_, hnodup'⟩
  rcases List.eq_nil_or_concat as with rfl | ⟨as, y, rfl⟩
  · -- the head goes
    simp only [lastOr_nil] at hprev
    have hrelink := hbs.relink hbsnd none
    simp only [DList.remove, hprev, List.nil_append]
    cases hnext : (m x).next with
    | none => simpa [hnext] using hrelink
    | some z => simpa [hnext, hprev] using hrelink
  · -- a node with a predecessor goes
    simp only [List.concat_eq_append, lastOr_concat] at hprev
    simp only [List.concat_eq_append] at has hdisj hnodup' ⊢
    have hy : y ≠ x ∧ y ∉ bs := by simpa using hdisj y (by simp)
    have hyas : y ∉ as := by
      have := (List.nodup_append.mp hnodup').1
      exact fun hmem => (List.nodup_append.mp this).2.2 y hmem y (by simp) rfl
    have hfirst := has.setNext hyas (m x).next
    have hrest : Chain (DList.setNext m y (m x).next) (some x) (m x).next bs none :=
      hbs.frame fun z hz => update_of_ne (ne_of_mem_of_not_mem hz hy.2) _ _
    have hmx : DList.setNext m y (m x).next x = m x := update_of_ne (Ne.symm hy.1) _ _
    have hrelink := hrest.relink hbsnd (some y)
    refine chain_append.mpr ⟨(m x).next, ?_, ?_⟩
    · simp only [DList.remove, hprev, hmx]
      cases hnext : (m x).next with
      | none => simpa [hnext] using hfirst
      | some z =>
        simp only [hnext] at hfirst ⊢
        refine hfirst.frame fun w hw => update_of_ne ?_ _ _
        rintro rfl
        have hz : w ∈ bs := by
          cases bs with
          | nil => simp [Chain, hnext] at hbs
          | cons b bs =>
            have : w = b := by simpa [hnext] using hbs.1
            exact this ▸ List.mem_cons_self
        exact hdisj w hw (List.mem_cons_of_mem _ hz)
    · simp only [lastOr_concat, DList.remove, hprev, hmx]
      cases hnext : (m x).next with
      | none => simpa [hnext] using hrelink
      | some z => simpa [hnext] using hrelink

theorem IsList.remove (h : IsList m l xs) (hx : x ∈ xs) :
    IsList (remove m l x).1 (remove m l x).2 (xs.erase x) := by
  obtain ⟨as, bs, rfl⟩ := List.append_of_mem hx
  have hxas : x ∉ as := fun hmem =>
    (List.nodup_append.mp h.nodup).2.2 x hmem x List.mem_cons_self rfl
  rw [List.erase_append_right _ hxas, List.erase_cons_head]
  exact h.remove_append

/-- Removing touches the links of nodes of the list only. -/
theorem IsList.remove_of_notMem {y : α} (h : IsList m l xs) (hx : x ∈ xs) (hy : y ∉ xs) :
    (DList.remove m l x).1 y = m y := by
  obtain ⟨as, bs, rfl⟩ := List.append_of_mem hx
  obtain ⟨-, hprev, hbs⟩ := h.chain.middle
  have hnext : (m x).next ≠ some y := by
    intro hn
    cases bs with
    | nil => simp [Chain, hn] at hbs
    | cons b bs =>
      have : y = b := by simpa [hn] using hbs.1
      exact hy (by simp [this])
  have hprev' : (m x).prev ≠ some y := by
    intro hp
    rcases List.eq_nil_or_concat as with rfl | ⟨as, z, rfl⟩
    · simp [hp] at hprev
    · have : y = z := by simpa [hp] using hprev
      exact hy (by simp [this])
  have hyx : y ≠ x := fun hyx => hy (by simp [hyx])
  simp only [DList.remove]
  cases hp : (m x).prev with
  | none =>
    cases hn : (m x).next with
    | none => simp
    | some z =>
      have hyz : y ≠ z := fun hyz => hnext (hyz ▸ hn)
      simp [setPrev, hyz]
  | some q =>
    have hyq : y ≠ q := fun hyq => hprev' (hyq ▸ hp)
    have hxn : (setNext m q (m x).next x).next = (m x).next := by
      by_cases hxq : x = q
      · subst hxq; simp [setNext]
      · simp [setNext, hxq]
    simp only [hxn]
    cases hn : (m x).next with
    | none => simp [setNext, hyq]
    | some z =>
      have hyz : y ≠ z := fun hyz => hnext (hyz ▸ hn)
      simp [setNext, setPrev, hyq, hyz]

end WasiLibc.DList

import WasiLibc.Udp.Calls

/-!
# WasiLibc.Udp.Ledger

What the calls of `sendto` on a UDP socket have handed to the host, against
what they have returned.

`copies` counts the calls of `udp-socket#send` for a call of `sendto` that
were not cancelled.  `Ledger` joins these numbers to the results of the calls
that have returned, and to the threads that are in a call: each claims the
number of its call and the number of copies handed over so far.  Each entry
into the ledger has one lemma.
-/

namespace WasiLibc.Udp

open Function Futex

variable {T : Threads}

/-- The copies of the datagram of a call that the host has got, or may still
get. -/
def copies (sends : List Sent) (id : Nat) : Nat :=
  sends.countP fun x => x.call = id ∧ x.fate ≠ .cancelled

/-- The result of a `sendto` of a datagram fits the number of copies. -/
def TruthfulResult (data : List UInt8) (n : Nat) : Except Errno Nat → Prop
  | .ok m => m = data.length ∧ n = 1
  | .error e => e = .EWOULDBLOCK → n = 0

/-- The calls, their copies and their results fit to the threads, each of
which claims a call and a number of copies. -/
structure Ledger (calls : List Call) (sends : List Sent)
    (returned : Nat → Option (Except Errno Nat)) (claim : Tid T → Option (Nat × Nat)) : Prop where
  data : ∀ x ∈ sends, ∃ a, calls[x.call]? = some (.sendto a) ∧ a.data = x.data
  running : ∀ t i n, claim t = some (i, n) →
    i < calls.length ∧ copies sends i = n ∧ returned i = none
  distinct : ∀ t u i n m, claim t = some (i, n) → claim u = some (i, m) → t = u
  truthful : ∀ i a r, calls[i]? = some (.sendto a) → returned i = some r →
    TruthfulResult a.data (copies sends i) r
  fresh : ∀ i, calls.length ≤ i → returned i = none

section

variable {calls : List Call} {sends sends' : List Sent}
  {returned : Nat → Option (Except Errno Nat)} {claim : Tid T → Option (Nat × Nat)} {t : Tid T}
  {i n : Nat}

theorem copies_append (sends : List Sent) (x : Sent) (j : Nat) :
    copies (sends ++ [x]) j = copies sends j + if x.call = j ∧ x.fate ≠ .cancelled then 1 else 0 := by
  simp [copies, List.countP_append, List.countP_cons]

/-- A record changes its fate. -/
theorem copies_set {k : Nat} {x y : Sent} (hx : sends[k]? = some x) (hcall : y.call = x.call)
    (j : Nat) :
    copies (sends.set k y) j + (if x.call = j ∧ x.fate ≠ .cancelled then 1 else 0) =
      copies sends j + if x.call = j ∧ y.fate ≠ .cancelled then 1 else 0 := by
  obtain ⟨hk, hget⟩ := List.getElem?_eq_some_iff.mp hx
  have hle : (if x.call = j ∧ x.fate ≠ .cancelled then 1 else 0) ≤ copies sends j := by
    split
    case isTrue hp =>
      exact List.countP_pos_iff.mpr ⟨x, List.mem_of_getElem? hx, by simpa using hp⟩
    case isFalse => exact Nat.zero_le _
  have hset : copies (sends.set k y) j = copies sends j -
      (if x.call = j ∧ x.fate ≠ .cancelled then 1 else 0) +
      if x.call = j ∧ y.fate ≠ .cancelled then 1 else 0 := by
    rw [copies, List.countP_set hk, hget]
    simp [copies, hcall]
  omega

/-- A call has no copies before it is made. -/
theorem Ledger.copies_fresh (h : Ledger calls sends returned claim) (hi : calls.length ≤ i) :
    copies sends i = 0 := by
  refine List.countP_eq_zero.mpr fun x hx => ?_
  obtain ⟨a, ha, _⟩ := h.data x hx
  obtain ⟨hlt, _⟩ := List.getElem?_eq_some_iff.mp ha
  simp only [ne_eq, decide_eq_true_eq, not_and]
  intro hcall
  omega

/-- A thread claims a call that no other thread claims. -/
theorem distinct_update (h : ∀ u v j k m, u ≠ t → v ≠ t → claim u = some (j, k) →
      claim v = some (j, m) → u = v)
    (hne : ∀ u j k, u ≠ t → claim u = some (j, k) → j ≠ i) (u v : Tid T) (j k m : Nat)
    (hu : update claim t (some (i, n)) u = some (j, k))
    (hv : update claim t (some (i, n)) v = some (j, m)) : u = v := by
  by_cases hut : u = t
  · by_cases hvt : v = t
    · rw [hut, hvt]
    · subst hut
      simp only [update_self, Option.some.injEq, Prod.mk.injEq] at hu
      exact absurd hu.1.symm (hne v j m hvt (by simpa [hvt] using hv))
  · by_cases hvt : v = t
    · subst hvt
      simp only [update_self, Option.some.injEq, Prod.mk.injEq] at hv
      exact absurd hv.1.symm (hne u j k hut (by simpa [hut] using hu))
    · exact h u v j k m hut hvt (by simpa [hut] using hu) (by simpa [hvt] using hv)

/-- The copies of one running call change. -/
theorem Ledger.change {m : Nat}
    (h : Ledger calls sends returned (update claim t (some (i, n))))
    (hdata : ∀ x ∈ sends', ∃ a, calls[x.call]? = some (.sendto a) ∧ a.data = x.data)
    (hmine : copies sends' i = m) (hothers : ∀ j, j ≠ i → copies sends' j = copies sends j) :
    Ledger calls sends' returned (update claim t (some (i, m))) := by
  have hrun := h.running t i n (by simp)
  have hne : ∀ u j k, u ≠ t → claim u = some (j, k) → j ≠ i := by
    rintro u j k hu hclaim rfl
    exact hu (h.distinct u t j k n (by simpa [hu] using hclaim) (by simp))
  have hdistinct : ∀ u v j k k', u ≠ t → v ≠ t → claim u = some (j, k) →
      claim v = some (j, k') → u = v := by
    intro u v j k k' hut hvt hu hv
    exact h.distinct u v j k k' (by simpa [hut] using hu) (by simpa [hvt] using hv)
  refine ⟨hdata, fun u j k hu => ?_, distinct_update hdistinct hne, fun j a r ha hr => ?_, h.fresh⟩
  · by_cases hut : u = t
    · subst hut
      simp only [update_self, Option.some.injEq, Prod.mk.injEq] at hu
      obtain ⟨rfl, rfl⟩ := hu
      exact ⟨hrun.1, hmine, hrun.2.2⟩
    · rw [update_of_ne hut] at hu
      rw [hothers j (hne u j k hut hu)]
      exact h.running u j k (by simpa [hut] using hu)
  · have hji : j ≠ i := by
      rintro rfl
      rw [hrun.2.2] at hr
      cases hr
    rw [hothers j hji]
    exact h.truthful j a r ha hr

/-- A datagram is handed to the host. -/
theorem Ledger.send {a : SendArgs} {fate : Fate}
    (h : Ledger calls sends returned (update claim t (some (i, n))))
    (ha : calls[i]? = some (.sendto a)) (hfate : fate ≠ .cancelled) :
    Ledger calls (sends ++ [⟨i, a.data, fate⟩]) returned
      (update claim t (some (i, n + 1))) := by
  refine h.change (fun x hx => ?_) ?_ fun j hj => ?_
  · rcases List.mem_append.mp hx with hx | hx
    · exact h.data x hx
    · rw [List.mem_singleton.mp hx]
      exact ⟨a, ha, rfl⟩
  · rw [copies_append, if_pos ⟨rfl, hfate⟩, (h.running t i n (by simp)).2.1]
  · rw [copies_append, if_neg fun hc => hj hc.1.symm, Nat.add_zero]

theorem data_set {k : Nat} {x y : Sent}
    (h : ∀ x ∈ sends, ∃ a, calls[x.call]? = some (.sendto a) ∧ a.data = x.data)
    (hx : sends[k]? = some x) (hcall : y.call = x.call) (hdata : y.data = x.data) :
    ∀ z ∈ sends.set k y, ∃ a, calls[z.call]? = some (.sendto a) ∧ a.data = z.data := by
  intro z hz
  rcases List.mem_or_eq_of_mem_set hz with hz | rfl
  · exact h z hz
  · rw [hcall, hdata]
    exact h x (List.mem_of_getElem? hx)

/-- A send is cancelled. -/
theorem Ledger.cancel {k : Nat} {data : List UInt8}
    (h : Ledger calls sends returned (update claim t (some (i, n + 1))))
    (hk : sends[k]? = some ⟨i, data, .pending⟩) :
    Ledger calls (sends.set k ⟨i, data, .cancelled⟩) returned
      (update claim t (some (i, n))) := by
  refine h.change (data_set h.data hk rfl rfl) ?_ fun j hj => ?_
  · have hset := copies_set (y := ⟨i, data, .cancelled⟩) hk rfl i
    have hn := (h.running t i (n + 1) (by simp)).2.1
    simp only [ne_eq, reduceCtorEq, not_false_eq_true, and_self, if_true, not_true_eq_false,
      and_false, if_false] at hset
    omega
  · have hset := copies_set (y := ⟨i, data, .cancelled⟩) hk rfl j
    simpa [hj.symm] using hset

/-- A send that was pending has been taken: the ledger is the same. -/
theorem Ledger.take {k call : Nat} {data : List UInt8} (h : Ledger calls sends returned claim)
    (hk : sends[k]? = some ⟨call, data, .pending⟩) :
    Ledger calls (sends.set k ⟨call, data, .taken⟩) returned claim := by
  have hsame : ∀ j, copies (sends.set k ⟨call, data, .taken⟩) j = copies sends j := by
    intro j
    have hset := copies_set (y := ⟨call, data, .taken⟩) hk rfl j
    simpa using hset
  refine ⟨data_set h.data hk rfl rfl, ?_, h.distinct, ?_, h.fresh⟩
  · simpa only [hsame] using h.running
  · simpa only [hsame] using h.truthful

/-- A call returns. -/
theorem Ledger.finish {r : Except Errno Nat}
    (h : Ledger calls sends returned (update claim t (some (i, n))))
    (hr : ∀ a, calls[i]? = some (.sendto a) → TruthfulResult a.data n r) :
    Ledger calls sends (update returned i (some r)) (update claim t none) := by
  have hrun := h.running t i n (by simp)
  have hold : ∀ u p, update claim t none u = some p →
      u ≠ t ∧ update claim t (some (i, n)) u = some p := by
    intro u p hu
    have hut : u ≠ t := by
      rintro rfl
      simp at hu
    simp only [update_of_ne hut] at hu ⊢
    exact ⟨hut, hu⟩
  refine ⟨h.data, fun u j k hu => ?_, fun u v j k m hu hv => ?_, fun j a r' ha hr' => ?_,
    fun j hj => ?_⟩
  · obtain ⟨hut, hu⟩ := hold u _ hu
    have hji : j ≠ i := by
      rintro rfl
      exact hut (h.distinct u t j k n hu (by simp))
    obtain ⟨hlt, hn, hnone⟩ := h.running u j k hu
    exact ⟨hlt, hn, by rwa [update_of_ne hji]⟩
  · exact h.distinct u v j k m (hold u _ hu).2 (hold v _ hv).2
  · by_cases hji : j = i
    · subst hji
      rw [update_self, Option.some.injEq] at hr'
      rw [← hr', hrun.2.1]
      exact hr a ha
    · rw [update_of_ne hji] at hr'
      exact h.truthful j a r' ha hr'
  · have hji : j ≠ i := by omega
    rw [update_of_ne hji]
    exact h.fresh j hj

/-- A call is made. -/
theorem Ledger.call (h : Ledger calls sends returned claim) (c : Call) :
    Ledger (calls ++ [c]) sends returned
      (update claim t (some (calls.length, 0))) := by
  have hget : ∀ {j : Nat} {c' : Call}, calls[j]? = some c' → (calls ++ [c])[j]? = some c' := by
    intro j c' hj
    rw [List.getElem?_append_left (List.getElem?_eq_some_iff.mp hj).1, hj]
  have hne : ∀ u j k, u ≠ t → claim u = some (j, k) → j ≠ calls.length :=
    fun u j k _ hu => (h.running u j k hu).1.ne
  refine ⟨fun x hx => ?_, fun u j k hu => ?_,
    distinct_update (fun u v j k m _ _ => h.distinct u v j k m) hne, fun j a r ha hr => ?_,
    fun j hj => ?_⟩
  · obtain ⟨a, ha, hdata⟩ := h.data x hx
    exact ⟨a, hget ha, hdata⟩
  · rw [List.length_append, List.length_singleton]
    by_cases hut : u = t
    · subst hut
      simp only [update_self, Option.some.injEq, Prod.mk.injEq] at hu
      obtain ⟨rfl, rfl⟩ := hu
      exact ⟨Nat.lt_succ_self _, h.copies_fresh le_rfl, h.fresh _ le_rfl⟩
    · rw [update_of_ne hut] at hu
      obtain ⟨hlt, hn, hnone⟩ := h.running u j k hu
      exact ⟨by omega, hn, hnone⟩
  · by_cases hj : j < calls.length
    · rw [List.getElem?_append_left hj] at ha
      exact h.truthful j a r ha hr
    · rw [h.fresh j (by omega)] at hr
      cases hr
  · rw [List.length_append] at hj
    exact h.fresh j (by omega)

end

end WasiLibc.Udp

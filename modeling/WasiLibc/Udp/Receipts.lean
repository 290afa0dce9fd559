import WasiLibc.Udp.Calls

/-!
# WasiLibc.Udp.Receipts

What the host has received for a UDP socket, against what the calls of
`recvfrom` have returned.

`Account` joins the record of the receives to the flags and the result in the
streams, and to the threads that have got an event and have not had the
socket's lock since.  `Deliveries` joins it to the calls.  Each change of the
record has one lemma.
-/

namespace WasiLibc.Udp

open Function Futex

variable {T : Threads}

/-! ## The record -/

def Receipt.result? : Receipt → Option RecvResult
  | .completed r => some r
  | _ => none

def Receipt.delivery? : Receipt → Option (Nat × RecvResult)
  | .consumed call r => some (call, r)
  | _ => none

def Receipt.isStart : Receipt → Bool
  | .started => true
  | _ => false

/-- The results that the host has completed, in order. -/
def completed (log : List Receipt) : List RecvResult := log.filterMap Receipt.result?

/-- The results that calls of `recvfrom` have returned, in order. -/
def consumed (log : List Receipt) : List (Nat × RecvResult) := log.filterMap Receipt.delivery?

/-- The number of calls of `udp-socket#receive`. -/
def started (log : List Receipt) : Nat := log.countP Receipt.isStart

section

variable (log : List Receipt)

@[simp] theorem completed_nil : completed [] = [] := rfl

@[simp] theorem completed_started : completed (.started :: log) = completed log := rfl

@[simp] theorem completed_completed (r : RecvResult) :
    completed (.completed r :: log) = r :: completed log := rfl

@[simp] theorem completed_consumed (id : Nat) (r : RecvResult) :
    completed (.consumed id r :: log) = completed log := rfl

@[simp] theorem completed_append (entries : List Receipt) :
    completed (log ++ entries) = completed log ++ completed entries := List.filterMap_append

@[simp] theorem consumed_nil : consumed [] = [] := rfl

@[simp] theorem consumed_started : consumed (.started :: log) = consumed log := rfl

@[simp] theorem consumed_completed (r : RecvResult) :
    consumed (.completed r :: log) = consumed log := rfl

@[simp] theorem consumed_consumed (id : Nat) (r : RecvResult) :
    consumed (.consumed id r :: log) = (id, r) :: consumed log := rfl

@[simp] theorem consumed_append (entries : List Receipt) :
    consumed (log ++ entries) = consumed log ++ consumed entries := List.filterMap_append

@[simp] theorem started_nil : started [] = 0 := rfl

@[simp] theorem started_started : started (.started :: log) = started log + 1 :=
  List.countP_cons_of_pos rfl

@[simp] theorem started_completed (r : RecvResult) :
    started (.completed r :: log) = started log := List.countP_cons_of_neg nofun

@[simp] theorem started_consumed (id : Nat) (r : RecvResult) :
    started (.consumed id r :: log) = started log := List.countP_cons_of_neg nofun

@[simp] theorem started_append (entries : List Receipt) :
    started (log ++ entries) = started log + started entries := List.countP_append

end

/-- The result that waits for a `recvfrom`. -/
def Streams.parked (st : Streams) : List RecvResult := if st.recvReady then [st.recvResult] else []

/-- Every result that has been completed has been returned, is in the streams,
or has been given to a thread that is about to put it there. -/
structure Account (st : Streams) (log : List Receipt) (taken : Tid T → Option RecvResult) :
    Prop where
  exclusive : st.recvReady = true → st.recvSubtask = false
  held : ∀ u r, taken u = some r → st.recvSubtask = true ∧
    completed log = (consumed log).map Prod.snd ++ [r] ∧ started log = (completed log).length
  free : (∀ u, taken u = none) → completed log = (consumed log).map Prod.snd ++ st.parked ∧
    started log = (completed log).length + if st.recvSubtask then 1 else 0
  one : ∀ u v r r', taken u = some r → taken v = some r' → u = v

section

variable {st st' : Streams} {log : List Receipt} {taken : Tid T → Option RecvResult} {t : Tid T}
  {r : RecvResult}

theorem Account.congr (h : Account st log taken) (hready : st'.recvReady = st.recvReady)
    (hsubtask : st'.recvSubtask = st.recvSubtask) (hresult : st'.recvResult = st.recvResult) :
    Account st' log taken := by
  have hparked : st'.parked = st.parked := by rw [Streams.parked, Streams.parked, hready, hresult]
  refine ⟨?_, ?_, ?_, h.one⟩
  · rw [hready, hsubtask]
    exact h.exclusive
  · rw [hsubtask]
    exact h.held
  · rw [hparked, hsubtask]
    exact h.free

/-- While a result is parked, no thread has got an event. -/
theorem Account.none_of_ready (h : Account st log taken) (hready : st.recvReady = true)
    (u : Tid T) : taken u = none := by
  by_contra hu
  obtain ⟨r, hr⟩ := Option.ne_none_iff_exists'.mp hu
  have hsubtask := (h.held u r hr).1
  rw [h.exclusive hready] at hsubtask
  cases hsubtask

/-- A receive is started, and goes on. -/
theorem Account.start (h : Account st log taken) (hnone : ∀ u, taken u = none)
    (hsubtask : st.recvSubtask = false) (hready : st.recvReady = false) :
    Account { st with recvSubtask := true } (log ++ [.started]) taken := by
  obtain ⟨hdone, hcount⟩ := h.free hnone
  refine ⟨fun hr => ?_, fun u r hu => ?_, fun _ => ⟨?_, ?_⟩, h.one⟩
  · rw [hready] at hr
    cases hr
  · rw [hnone u] at hu
    cases hu
  · simpa [Streams.parked, hready] using hdone
  · simp [hcount, hsubtask]

/-- A receive is started, and completed at once. -/
theorem Account.startDone (h : Account st log taken) (hnone : ∀ u, taken u = none)
    (hsubtask : st.recvSubtask = false) (hready : st.recvReady = false) (r : RecvResult) :
    Account { st with recvResult := r, recvReady := true } (log ++ [.started, .completed r])
      taken := by
  obtain ⟨hdone, hcount⟩ := h.free hnone
  refine ⟨fun _ => hsubtask, fun u r hu => ?_, fun _ => ⟨?_, ?_⟩, h.one⟩
  · rw [hnone u] at hu
    cases hu
  · simp [hdone, Streams.parked, hready]
  · simp [hcount, hsubtask]

/-- A thread gets the event of the receive. -/
theorem Account.take (h : Account st log taken) (hnone : ∀ u, taken u = none)
    (hsubtask : st.recvSubtask = true) (t : Tid T) (r : RecvResult) :
    Account st (log ++ [.completed r]) (update taken t (some r)) := by
  obtain ⟨hdone, hcount⟩ := h.free hnone
  have hready : st.recvReady = false := by
    by_contra hr
    have := h.exclusive (by simpa using hr)
    rw [hsubtask] at this
    cases this
  have hself : ∀ u r', update taken t (some r) u = some r' → u = t ∧ r' = r := by
    intro u r' hu
    by_cases hut : u = t
    · subst hut
      rw [update_self, Option.some.injEq] at hu
      exact ⟨rfl, hu.symm⟩
    · rw [update_of_ne hut, hnone u] at hu
      cases hu
  refine ⟨h.exclusive, fun u r' hu => ?_, fun hfree => ?_, fun u v r r' hu hv => ?_⟩
  · obtain ⟨-, rfl⟩ := hself u r' hu
    refine ⟨hsubtask, ?_, ?_⟩
    · simp [hdone, Streams.parked, hready]
    · simp [hcount, hsubtask]
  · have := hfree t
    rw [update_self] at this
    cases this
  · rw [(hself u r hu).1, (hself v r' hv).1]

/-- The thread puts the result into the streams. -/
theorem Account.put (h : Account st log (update taken t (some r))) :
    Account { st with recvSubtask := false, recvReady := true, recvResult := r } log
      (update taken t none) := by
  obtain ⟨-, hdone, hcount⟩ := h.held t r (by simp)
  have hnone : ∀ u, update taken t none u = none := by
    intro u
    by_cases hut : u = t
    · rw [hut, update_self]
    · by_contra hu
      obtain ⟨r', hr'⟩ := Option.ne_none_iff_exists'.mp hu
      rw [update_of_ne hut] at hr'
      exact hut (h.one u t r' r (by rw [update_of_ne hut, hr']) (by simp))
  refine ⟨fun _ => rfl, fun u r' hu => ?_, fun _ => ⟨?_, ?_⟩, fun u v r' r'' hu hv => ?_⟩
  · rw [hnone u] at hu
    cases hu
  · simpa [Streams.parked] using hdone
  · simpa using hcount
  · rw [hnone u] at hu
    cases hu

/-- A call returns the result. -/
theorem Account.consume (h : Account st log taken) (hready : st.recvReady = true) (id : Nat) :
    Account { st with recvReady := false } (log ++ [.consumed id st.recvResult]) taken := by
  have hnone := h.none_of_ready hready
  obtain ⟨hdone, hcount⟩ := h.free hnone
  refine ⟨nofun, fun u r hu => ?_, fun _ => ⟨?_, ?_⟩, h.one⟩
  · rw [hnone u] at hu
    cases hu
  · simpa [Streams.parked, hready] using hdone
  · simpa using hcount

end

/-! ## Deliveries -/

/-- What a `recvfrom` returns for a result of the host. -/
def outcome (a : RecvArgs) : RecvResult → Except Errno Nat
  | .error e => .error (mapSocketError e)
  | .ok data => .ok (if a.trunc then data.length else min data.length a.length)

/-- The results that were returned, against the calls: each is the result of
one `recvfrom`, and a `recvfrom` returns a datagram only so. -/
structure Deliveries (calls : List Call) (returned : Nat → Option (Except Errno Nat))
    (log : List Receipt) (call : Tid T → Option Nat) : Prop where
  truthful : ∀ p ∈ consumed log, ∃ a, calls[p.1]? = some (.recvfrom a) ∧
    returned p.1 = some (outcome a p.2)
  nodup : ((consumed log).map Prod.fst).Nodup
  backed : ∀ i a n, calls[i]? = some (.recvfrom a) → returned i = some (.ok n) →
    i ∈ (consumed log).map Prod.fst
  running : ∀ t i, call t = some i → i < calls.length ∧ returned i = none
  distinct : ∀ t u i, call t = some i → call u = some i → t = u
  fresh : ∀ i, calls.length ≤ i → returned i = none

section

variable {calls : List Call} {returned : Nat → Option (Except Errno Nat)} {log log' : List Receipt}
  {call : Tid T → Option Nat} {t : Tid T} {i : Nat}

theorem Deliveries.congr (h : Deliveries calls returned log call)
    (hlog : consumed log' = consumed log) : Deliveries calls returned log' call :=
  ⟨hlog ▸ h.truthful, hlog ▸ h.nodup, hlog ▸ h.backed, h.running, h.distinct, h.fresh⟩

/-- A call that has not returned has not got a result. -/
theorem Deliveries.not_consumed (h : Deliveries calls returned log call)
    (hi : returned i = none) : i ∉ (consumed log).map Prod.fst := by
  intro hmem
  obtain ⟨p, hp, rfl⟩ := List.mem_map.mp hmem
  obtain ⟨a, -, hreturned⟩ := h.truthful p hp
  rw [hi] at hreturned
  cases hreturned

/-- A thread makes a call. -/
theorem Deliveries.begin (h : Deliveries calls returned log call) (c : Call) :
    Deliveries (calls ++ [c]) returned log (update call t (some calls.length)) := by
  have hget : ∀ {j : Nat} {c' : Call}, calls[j]? = some c' → (calls ++ [c])[j]? = some c' := by
    intro j c' hj
    rw [List.getElem?_append_left (List.getElem?_eq_some_iff.mp hj).1, hj]
  have hlt : ∀ u i, u ≠ t → update call t (some calls.length) u = some i →
      i < calls.length := by
    intro u i hu hi
    rw [update_of_ne hu] at hi
    exact (h.running u i hi).1
  refine ⟨fun p hp => ?_, h.nodup, fun i a n ha hr => ?_, fun u i hi => ?_, fun u v i hu hv => ?_,
    fun i hi => h.fresh i ?_⟩
  · obtain ⟨a, ha, hr⟩ := h.truthful p hp
    exact ⟨a, hget ha, hr⟩
  · by_cases hi : i < calls.length
    · rw [List.getElem?_append_left hi] at ha
      exact h.backed i a n ha hr
    · rw [h.fresh i (not_lt.mp hi)] at hr
      cases hr
  · rw [List.length_append, List.length_singleton]
    by_cases hu : u = t
    · subst hu
      rw [update_self, Option.some.injEq] at hi
      subst hi
      exact ⟨Nat.lt_succ_self _, h.fresh _ le_rfl⟩
    · have hrun := h.running u i (by rwa [update_of_ne hu] at hi)
      exact ⟨Nat.lt_succ_of_lt hrun.1, hrun.2⟩
  · by_cases hut : u = t <;> by_cases hvt : v = t
    · rw [hut, hvt]
    · rw [hut, update_self, Option.some.injEq] at hu
      exact absurd (hlt v i hvt hv) (by omega)
    · rw [hvt, update_self, Option.some.injEq] at hv
      exact absurd (hlt u i hut hu) (by omega)
    · rw [update_of_ne hut] at hu
      rw [update_of_ne hvt] at hv
      exact h.distinct u v i hu hv
  · rw [List.length_append] at hi
    omega

/-- The result of the call is no datagram of the host's. -/
def Modest (calls : List Call) (i : Nat) (r : Except Errno Nat) : Prop :=
  ∀ a n, calls[i]? = some (.recvfrom a) → r ≠ .ok n

/-- A call returns, with a new result of the host if the record says so. -/
theorem Deliveries.finish (h : Deliveries calls returned log (update call t (some i)))
    {r : Except Errno Nat} (hlog : consumed log' = consumed log ∧ Modest calls i r ∨
      ∃ a x, consumed log' = consumed log ++ [(i, x)] ∧ calls[i]? = some (.recvfrom a) ∧
        r = outcome a x) :
    Deliveries calls (update returned i (some r)) log' (update call t none) := by
  obtain ⟨hi, hnone⟩ := h.running t i (by simp)
  have hnew := h.not_consumed hnone
  have hother : ∀ u j, update call t none u = some j → u ≠ t ∧ call u = some j := by
    intro u j hu
    have hut : u ≠ t := by
      rintro rfl
      rw [update_self] at hu
      cases hu
    exact ⟨hut, by rwa [update_of_ne hut] at hu⟩
  have hold : ∀ p ∈ consumed log, ∃ a, calls[p.1]? = some (.recvfrom a) ∧
      update returned i (some r) p.1 = some (outcome a p.2) := by
    intro p hp
    have hpi : p.1 ≠ i := fun hpi => hnew (hpi ▸ List.mem_map_of_mem hp)
    obtain ⟨a, ha, hr⟩ := h.truthful p hp
    exact ⟨a, ha, by rw [update_of_ne hpi, hr]⟩
  refine ⟨fun p hp => ?_, ?_, fun j a n ha hr => ?_, fun u j hu => ?_, fun u v j hu hv => ?_,
    fun j hj => ?_⟩
  · obtain ⟨hsame, -⟩ | ⟨a, x, hadd, ha, rfl⟩ := hlog
    · exact hold p (hsame ▸ hp)
    · rw [hadd, List.mem_append, List.mem_singleton] at hp
      obtain hp | rfl := hp
      · exact hold p hp
      · exact ⟨a, ha, update_self ..⟩
  · obtain ⟨hsame, -⟩ | ⟨a, x, hadd, -, -⟩ := hlog
    · rw [hsame]
      exact h.nodup
    · rw [hadd, List.map_append]
      exact List.nodup_append'.mpr ⟨h.nodup, List.nodup_singleton _, by simpa using hnew⟩
  · by_cases hji : j = i
    · subst hji
      rw [update_self, Option.some.injEq] at hr
      obtain ⟨-, hmodest⟩ | ⟨_, x, hadd, -, -⟩ := hlog
      · exact absurd hr (hmodest a n ha)
      · simp [hadd]
    · rw [update_of_ne hji] at hr
      have hmem := h.backed j a n ha hr
      obtain ⟨hsame, -⟩ | ⟨_, x, hadd, -, -⟩ := hlog
      · rwa [hsame]
      · rw [hadd, List.map_append]
        exact List.mem_append_left _ hmem
  · obtain ⟨hut, hu⟩ := hother u j hu
    have hu' : update call t (some i) u = some j := by rw [update_of_ne hut, hu]
    have hji : j ≠ i := by
      rintro rfl
      exact hut (h.distinct u t j hu' (by simp))
    exact ⟨(h.running u j hu').1, by rw [update_of_ne hji, (h.running u j hu').2]⟩
  · obtain ⟨hut, hu⟩ := hother u j hu
    obtain ⟨hvt, hv⟩ := hother v j hv
    exact h.distinct u v j (by rw [update_of_ne hut, hu])
      (by rw [update_of_ne hvt, hv])
  · rw [update_of_ne (by omega), h.fresh j hj]

end

end WasiLibc.Udp

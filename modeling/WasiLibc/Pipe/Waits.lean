import WasiLibc.Pipe.Rules

/-!
# WasiLibc.Pipe.Waits

The invariant of a pipe: who waits and has not been notified is right to wait.
Each way to change the buffer or the halves notifies the waiter that may go
on then.
-/

namespace WasiLibc.Pipe

open Function Wp

variable {ι : Type} {ok : Fault → Prop} {s s' : State ι} {phase : ι → Phase} {d : Dir}

/-- A waiter of the half, which asks to write so many bytes if it is the write
half, cannot go on. -/
def State.Stuck (s : State ι) (asks : Nat) : Dir → Prop
  | .read => s.buffer = [] ∧ s.alive .write = true
  | .write => s.alive .read = true ∧ ¬ s.Accepts asks

/-- The buffer and its capacity. -/
structure Storage (s : State ι) : Prop where
  bound : s.buffer.length ≤ s.cap
  cap : s.cap = 0 ∨ s.cap = PIPE_BUF
  allocated : s.allocated = true → s.cap = PIPE_BUF

/-- The invariant at switch points. -/
structure Inv (ok : Fault → Prop) (s : State ι) (phase : ι → Phase) : Prop where
  storage : Storage s
  wired : Wired ok s phase
  stuck : ∀ t d, d ∈ (phase t).halves → s.woken d = false → s.Stuck (phase t).asks d
  asks : ∀ t, .write ∈ (phase t).halves → 0 < (phase t).asks ∧ s.cap = PIPE_BUF
  alive : ∀ t d, d ∈ (phase t).halves → s.alive d = true
  freed : s.freed = if s.alive .read || s.alive .write then 0 else 1

/-- A write that is not accepted finds something in the buffer. -/
theorem State.Stuck.buffer_ne_nil {n : Nat} (h : s.Stuck n .write) (hn : 0 < n)
    (hcap : s.cap = PIPE_BUF) : s.buffer ≠ [] := by
  intro hnil
  refine h.2 ?_
  simp only [State.Accepts, hnil, hcap, List.length_nil]
  unfold PIPE_BUF
  omega

/-- No operation is pending at one end when a thread is about to block on the
other half. -/
theorem Inv.apart {n : Nat} (h : Inv ok s phase) (hstuck : s.Stuck n d)
    (hn : d = .write → 0 < n ∧ s.cap = PIPE_BUF) : s.ends d.other ≠ .copying := by
  intro hcopying
  obtain ⟨hb, hw⟩ := (h.wired.copying _).mp hcopying
  obtain ⟨t, ht⟩ := (h.wired.blocked _).mp hb
  have hother := h.stuck t _ ht hw
  cases d with
  | read =>
    obtain ⟨hpos, hcap⟩ := h.asks t ht
    exact hother.buffer_ne_nil hpos hcap hstuck.1
  | write => exact hstuck.buffer_ne_nil (hn rfl).1 (hn rfl).2 hother.1

/-- What there is beside the wiring. -/
def State.content (s : State ι) := (s.alive, s.allocated, s.cap, s.buffer, s.freed)

/-- Other fields do not matter. -/
theorem Inv.congr (h : Inv ok s phase) (hwiring : s'.wiring = s.wiring)
    (hs : s'.content = s.content) : Inv ok s' phase := by
  have hwoken : s'.woken = s.woken := congrArg (fun p => p.2.1) hwiring
  simp only [State.content, Prod.mk.injEq] at hs
  obtain ⟨halive, hallocated, hcap, hbuffer, hfreed⟩ := hs
  constructor
  case storage =>
    exact ⟨by rw [hbuffer, hcap]; exact h.storage.bound, hcap ▸ h.storage.cap,
      by rw [hallocated, hcap]; exact h.storage.allocated⟩
  case wired => exact h.wired.congr hwiring
  case stuck =>
    intro t d hd hw
    have := h.stuck t d hd (hwoken ▸ hw)
    cases d with
    | read => simpa [State.Stuck, hbuffer, halive] using this
    | write => simpa [State.Stuck, State.Accepts, hbuffer, halive, hcap] using this
  case asks => rw [hcap]; exact h.asks
  case alive => rw [halive]; exact h.alive
  case freed => rw [hfreed, halive]; exact h.freed

/-! ## Data -/

theorem State.Stuck.notified {n : Nat} {e : Dir} (h : s.Stuck n e) : (s.notified d).Stuck n e := by
  cases e <;> exact h

/-- The waiters of a half are notified, so that it does not matter what becomes
of what they wait for. -/
theorem Inv.release (h : Inv ok s phase) (hstorage : Storage s')
    (hstuck : ∀ t e, e ≠ d → e ∈ (phase t).halves → s.woken e = false →
      s.Stuck (phase t).asks e → s'.Stuck (phase t).asks e)
    (halive : ∀ t e, e ∈ (phase t).halves → s'.alive e = true)
    (hfreed : s'.freed = if s'.alive .read || s'.alive .write then 0 else 1)
    (hwiring : s'.wiring = s.wiring) (hcap : s'.cap = s.cap) :
    Inv ok (s'.notified d) phase where
  storage := ⟨hstorage.bound, hstorage.cap, hstorage.allocated⟩
  wired := (h.wired.congr hwiring).notified d
  stuck := fun t e he hw => by
    have hblocked : s'.blocked = s.blocked := congrArg Prod.fst hwiring
    have hwoken : s'.woken = s.woken := congrArg (fun p => p.2.1) hwiring
    by_cases hed : e = d
    · subst hed
      have hb := (h.wired.blocked e).mpr ⟨t, he⟩
      simp [State.notified, hblocked, hb] at hw
    · have hw : s.woken e = false := by simpa [State.notified, hed, hwoken] using hw
      exact (hstuck t e hed he hw (h.stuck t e he hw)).notified
  asks := fun t ht => ⟨(h.asks t ht).1, hcap.trans (h.asks t ht).2⟩
  alive := halive
  freed := hfreed

/-- A read takes bytes from the front of the buffer. -/
theorem Inv.take (h : Inv ok s phase) (n : Nat) :
    Inv ok (State.notified { s with buffer := s.buffer.drop n } .write) phase := by
  refine h.release ⟨?_, h.storage.cap, h.storage.allocated⟩ (fun t e he _ _ hstuck => ?_) h.alive
    h.freed rfl rfl
  · have := h.storage.bound
    simp only [List.length_drop]
    omega
  · cases e with
    | read => exact ⟨by simp [hstuck.1], hstuck.2⟩
    | write => exact absurd rfl he

/-- A write adds bytes at the end of the buffer. -/
theorem Inv.put (h : Inv ok s phase) {data : List UInt8}
    (hfits : s.buffer.length + data.length ≤ s.cap) :
    Inv ok (State.notified { s with buffer := s.buffer ++ data } .read) phase := by
  refine h.release ⟨?_, h.storage.cap, h.storage.allocated⟩ (fun t e he _ _ hstuck => ?_) h.alive
    h.freed rfl rfl
  · simpa using hfits
  · cases e with
    | read => exact absurd rfl he
    | write =>
      refine ⟨hstuck.1, fun haccepts => hstuck.2 ?_⟩
      obtain ⟨hpos, hlen⟩ := haccepts
      simp only [List.length_append] at hpos hlen
      refine ⟨by omega, hlen.imp_right fun hle => ?_⟩
      omega

/-- The buffer is allocated, or not. -/
theorem Inv.allocate (h : Inv ok s phase) (malloc : Bool) :
    Inv ok { s with cap := PIPE_BUF, allocated := malloc } phase := by
  have hcap : ∀ t, .write ∈ (phase t).halves → s.cap = PIPE_BUF := fun t ht => (h.asks t ht).2
  refine ⟨⟨?_, .inr rfl, fun _ => rfl⟩, h.wired.congr rfl, fun t e he hw => ?_, fun t ht => ?_,
    h.alive, h.freed⟩
  · have hbound := h.storage.bound
    rcases h.storage.cap with hzero | hbuf
    · rw [hzero] at hbound
      exact hbound.trans (Nat.zero_le _)
    · rwa [hbuf] at hbound
  · have hstuck := h.stuck t e he hw
    cases e with
    | read => exact hstuck
    | write => simpa [State.Stuck, State.Accepts, hcap t he] using hstuck
  · exact ⟨(h.asks t ht).1, rfl⟩

/-! ## Halves -/

/-- A half is destroyed; nobody is blocked on it. -/
theorem Inv.close (h : Inv ok s phase) (halive : s.alive d = true)
    (hnobody : ∀ t, d ∉ (phase t).halves) (hother : s.alive d.other = true) :
    Inv ok (State.notified { s with alive := update s.alive d false } d.other) phase := by
  refine h.release ⟨h.storage.bound, h.storage.cap, h.storage.allocated⟩
    (fun t e he ht _ _ => ?_) (fun t e ht => ?_) ?_ rfl rfl
  · rcases Dir.eq_or_other d e with hed | hed
    · exact absurd (hed ▸ ht) (hnobody t)
    · exact absurd hed he
  · have hed : e ≠ d := by
      rintro rfl
      exact hnobody t ht
    simpa [hed] using h.alive t e ht
  · have hfreed := h.freed
    cases d <;> simp_all [Dir.other]

/-- The second half is destroyed. -/
theorem Inv.closeLast (h : Inv ok s phase) (halive : s.alive d = true)
    (hnobody : ∀ t, d ∉ (phase t).halves) (hother : s.alive d.other = false) :
    Inv ok { s with alive := update s.alive d false, freed := s.freed + 1 } phase := by
  have hnone : ∀ t e, e ∉ (phase t).halves := by
    intro t e he
    rcases Dir.eq_or_other d e with rfl | rfl
    · exact hnobody t he
    · rw [h.alive t _ he] at hother
      cases hother
  refine ⟨⟨h.storage.bound, h.storage.cap, h.storage.allocated⟩, h.wired.congr rfl,
    fun t e he => absurd he (hnone t e), fun t ht => absurd ht (hnone t _),
    fun t e he => absurd he (hnone t e), ?_⟩
  have hfreed := h.freed
  cases d <;> simp_all [Dir.other]

section

variable [DecidableEq ι] {t : ι} {p q : Phase}

/-- The thread is at another place with the same halves. -/
theorem Inv.moved (h : Inv ok s (update phase t p)) (hhalves : q.halves = p.halves)
    (hasks : q.asks = p.asks) : Inv ok s (update phase t q) := by
  have heq : ∀ u, (update phase t q u).halves = (update phase t p u).halves ∧
      (update phase t q u).asks = (update phase t p u).asks := by
    intro u
    by_cases hu : u = t
    · subst hu; simp [hhalves, hasks]
    · simp [hu]
  obtain ⟨hstorage, hw, hstuck, hpos, halive, hfreed⟩ := h
  simp only [← (heq _).1, ← (heq _).2] at hstuck hpos halive
  refine ⟨hstorage, ⟨?_, ?_, ?_, hw.woken, hw.copying, hw.finished, hw.idle, hw.stream⟩, hstuck,
    hpos, halive, hfreed⟩
  · simpa only [(heq _).1] using hw.blocked
  · simpa only [(heq _).1] using hw.unique
  · simpa only [(heq _).1] using hw.nodup

/-- A thread blocks on a half, and is right to. -/
theorem Inv.entered (h : Inv ok s (update phase t p)) (hb : s.blocked d = false)
    (hp' : q.halves = p.halves ++ [d]) (hasks : ∀ e ∈ p.halves, q.asks = p.asks)
    (hstuck : s.Stuck q.asks d) (hn : d = .write → 0 < q.asks ∧ s.cap = PIPE_BUF)
    (halive : s.alive d = true) : Inv ok (s.entered d) (update phase t q) := by
  have hsame : ∀ {n e}, s.Stuck n e → (s.entered d).Stuck n e := by
    intro n e he
    cases e <;> exact he
  refine ⟨⟨h.storage.bound, h.storage.cap, h.storage.allocated⟩, h.wired.entered hb hp',
    fun u e he hw => ?_, fun u hu => ?_, fun u e he => ?_, h.freed⟩
  · by_cases hut : u = t
    · subst hut
      rw [update_self, hp', List.mem_append, List.mem_singleton] at he
      rw [update_self]
      rcases he with he | rfl
      · have hold := h.stuck u e (by rwa [update_self]) hw
        rw [update_self, ← hasks e he] at hold
        exact hsame hold
      · exact hsame hstuck
    · rw [update_of_ne hut] at he ⊢
      have hold := h.stuck u e (by rwa [update_of_ne hut]) hw
      rw [update_of_ne hut] at hold
      exact hsame hold
  · by_cases hut : u = t
    · subst hut
      rw [update_self] at hu ⊢
      rw [hp', List.mem_append, List.mem_singleton] at hu
      rcases hu with hu | hu
      · have hold := h.asks u (by rwa [update_self])
        rwa [update_self, ← hasks _ hu] at hold
      · exact hn hu.symm
    · rw [update_of_ne hut] at hu ⊢
      have hold := h.asks u (by rwa [update_of_ne hut])
      rwa [update_of_ne hut] at hold
  · by_cases hut : u = t
    · subst hut
      rw [update_self, hp', List.mem_append, List.mem_singleton] at he
      rcases he with he | rfl
      · exact h.alive u e (by rwa [update_self])
      · exact halive
    · rw [update_of_ne hut] at he
      exact h.alive u e (by rwa [update_of_ne hut])

/-- A thread has fewer halves, and waits for nothing else. -/
theorem Inv.fewer (h : Inv ok s (update phase t p))
    (hwired : Wired ok s' (update phase t q))
    (hsub : ∀ e ∈ q.halves, e ∈ p.halves) (hasks : q.halves ≠ [] → q.asks = p.asks)
    (hwoken : ∀ e, s'.woken e = false → s.blocked e = true → s'.blocked e = true →
      s.woken e = false)
    (hs : s'.content = s.content) : Inv ok s' (update phase t q) := by
  simp only [State.content, Prod.mk.injEq] at hs
  obtain ⟨halive, hallocated, hcap, hbuffer, hfreed⟩ := hs
  have hold : ∀ u e, e ∈ (update phase t q u).halves →
      e ∈ (update phase t p u).halves ∧
        (update phase t q u).asks = (update phase t p u).asks := by
    intro u e he
    by_cases hut : u = t
    · subst hut
      rw [update_self] at he ⊢
      rw [update_self]
      exact ⟨hsub e he, hasks fun hnil => by simp [hnil] at he⟩
    · rw [update_of_ne hut] at he ⊢
      rw [update_of_ne hut]
      exact ⟨he, rfl⟩
  refine ⟨⟨by rw [hbuffer, hcap]; exact h.storage.bound, hcap ▸ h.storage.cap,
    by rw [hallocated, hcap]; exact h.storage.allocated⟩, hwired, fun u e he hw => ?_,
    fun u hu => ?_, fun u e he => ?_, by rw [hfreed, halive]; exact h.freed⟩
  · obtain ⟨hu, heq⟩ := hold u e he
    have hw := hwoken e hw ((h.wired.blocked e).mpr ⟨u, hu⟩) ((hwired.blocked e).mpr ⟨u, he⟩)
    have hstuck := h.stuck u e hu hw
    rw [heq]
    cases e with
    | read => simpa [State.Stuck, hbuffer, halive] using hstuck
    | write => simpa [State.Stuck, State.Accepts, hbuffer, halive, hcap] using hstuck
  · obtain ⟨hu, heq⟩ := hold u _ hu
    rw [heq, hcap]
    exact h.asks u hu
  · rw [halive]
    exact h.alive u e (hold u e he).1

/-- A thread that has its event leaves. -/
theorem Inv.left (h : Inv ok s (update phase t p)) (hd : d ∈ p.halves)
    (hp' : q.halves = p.halves.erase d) (hasks : q.halves ≠ [] → q.asks = p.asks) :
    Inv ok (s.left d) (update phase t q) := by
  refine h.fewer (h.wired.left hd hp') (fun e he => ?_) hasks (fun e hw _ hb => ?_) rfl
  · exact List.mem_of_mem_erase (hp' ▸ he)
  · have hed : e ≠ d := by
      rintro rfl
      simp [State.left] at hb
    simpa [State.left, hed] using hw

/-- A thread gives up to be blocked on a half. -/
theorem Inv.exited (h : Inv ok s (update phase t p)) (hd : d ∈ p.halves)
    (hp' : q.halves = p.halves.erase d) (hasks : q.halves ≠ [] → q.asks = p.asks)
    (hw : ¬ ok .trap → s.woken d = false) :
    Inv ok (s.exited d) (update phase t q) := by
  refine h.fewer (h.wired.exited hd hp' hw) (fun e he => ?_) hasks (fun e hw _ hb => ?_) rfl
  · exact List.mem_of_mem_erase (hp' ▸ he)
  · have hed : e ≠ d := by
      rintro rfl
      simp [State.exited] at hb
    simpa [State.exited, hed] using hw

end

end WasiLibc.Pipe

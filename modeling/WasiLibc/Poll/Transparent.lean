import WasiLibc.Poll.Counting

/-!
# WasiLibc.Poll.Transparent

Does `POLLPRI` matter?  Two calls whose entries differ in `POLLPRI` only are
run side by side; `Like` relates their states.  An object that reports the
mask it is given, instead of testing it for single events, tells the two
calls apart; those are the raw objects of a target.
-/

namespace WasiLibc.Poll

open Function Twin Wp

/-! ## Masks -/

/-- Two entries that differ in `POLLPRI` at most. -/
structure Same (p q : PollFd) : Prop where
  fd : p.fd = q.fd
  events : strip p.events = strip q.events
  revents : p.revents = q.revents

variable {ρ ω α β : Type}

/-- Two states of which the entries differ in `POLLPRI` at most, and the
registrations as `L` allows; the objects and the host are the same, and `P`
holds of them. -/
structure Like (P : ω → Prop) (L : ω → ρ → ρ → Prop) (s t : State ρ ω) : Prop where
  fds : List.Forall₂ Same s.fds t.fds
  count : s.count = t.count
  elapsed : s.elapsed = t.elapsed
  regs : List.Forall₂ (L s.world) s.regs t.regs
  world : s.world = t.world
  calm : P s.world

section

variable {P : ω → Prop} {L : ω → ρ → ρ → Prop}

/-- A step of the objects and the host, which are the same. -/
theorem alike_onWorld {f : StateT ω (Except Fault) α}
    (hf : ∀ w, P w → wp anyFault f (fun _ w' => P w' ∧ ∀ r r', L w r r' → L w' r r') w) :
    Alike (Like P L) (onWorld f : M ρ ω α) (onWorld f) := by
  intro s t h
  have hs := hf s.world h.calm
  unfold twin onWorld
  rw [← h.world]
  unfold wp at hs
  cases hfs : f s.world with
  | error e => rfl
  | ok p =>
    rw [hfs] at hs
    exact ⟨rfl, h.fds, h.count, h.elapsed, h.regs.imp hs.2, rfl, hs.1⟩

theorem getElem?_forall₂ {R : α → β → Prop} {l : List α} {m : List β} (h : List.Forall₂ R l m)
    (i : Nat) : (l[i]? = none ∧ m[i]? = none) ∨ ∃ a b, l[i]? = some a ∧ m[i]? = some b ∧ R a b := by
  induction h generalizing i with
  | nil => exact .inl ⟨rfl, rfl⟩
  | cons hab _ ih =>
    cases i with
    | zero => exact .inr ⟨_, _, rfl, rfl, hab⟩
    | succ i => simpa using ih i

end

/-! ## Calls -/

/-- Some entry that is not negative asks for something besides `POLLPRI`. -/
def AsksOther (fds : List PollFd) : Prop := ∃ p ∈ fds, 0 ≤ p.fd ∧ strip p.events ≠ 0

/-- What the caller sees of a call. -/
def outcome (r : Except Errno Nat × State ρ ω) : Except Errno Nat × List Events :=
  (r.1, r.2.fds.map PollFd.revents)

variable {fds fds' : List PollFd} {impl : Option Timespec → M ρ ω (Except Errno Nat)}

theorem AsksOther.congr (h : AsksOther fds)
    (hsame : List.Forall₂ Same fds fds') : AsksOther fds' := by
  obtain ⟨p, hp, hpos, hstrip⟩ := h
  obtain ⟨i, hi⟩ := List.mem_iff_getElem?.mp hp
  rcases getElem?_forall₂ hsame i with ⟨hnone, -⟩ | ⟨p', q, hp', hq, hpq⟩
  · rw [hi] at hnone
    cases hnone
  · rw [hi] at hp'
    cases hp'
    exact ⟨q, List.mem_of_getElem? hq, hpq.fd ▸ hpos, hpq.events ▸ hstrip⟩

namespace Preview1

/-- Two states of a call. -/
abbrev Twins : State Subscription Answer → State Subscription Answer → Prop :=
  Like (fun _ => True) fun _ r r' => r = r'

end Preview1

/-! ## wasip2 -/

namespace Preview2

/-- The objects that report the mask they are given; of a connecting socket
the mask is kept for the end of the wait. -/
def Object.Raw : Object → Prop
  | .udp .unbound => True
  | .tcp .connectFailed => True
  | .tcp .connecting => True
  | _ => False

/-- No descriptor names a raw object. -/
def Calm (table : Nat → Option Nat) (w : World) : Prop :=
  ∀ fd o, table fd = some o → ¬ (w.objects o).Raw

/-- Two registrations of a descriptor.  A listening socket registers the mask
it is given, but tests it at the end of the wait. -/
structure RegLike (table : Nat → Option Nat) (w : World) (r r' : Reg) : Prop where
  cur : r.cur = r'.cur
  object : r.object = r'.object
  opened : ∃ fd, table fd = some r.object
  events : r.events = r'.events ∨
    w.objects r.object = .tcp .listening ∧ strip r.events = strip r'.events

/-- Two states of a call. -/
abbrev Twins (table : Nat → Option Nat) : State Reg World → State Reg World → Prop :=
  Like (Calm table) (RegLike table)

section

variable {table : Nat → Option Nat} {cur o : Nat} {e e' : Events}

/-- No object becomes raw, and listening sockets stay so. -/
def Steady (table : Nat → Option Nat) {α : Type} (f : StateT World (Except Fault) α) : Prop :=
  ∀ w, Calm table w → wp anyFault f (fun _ w' => Calm table w' ∧
    ∀ o, w.objects o = .tcp .listening → w'.objects o = .tcp .listening) w

variable {α : Type} {s t : State Reg World} {fd : Nat}

theorem alike_world {f : StateT World (Except Fault) α} (hf : Steady table f) :
    Alike (Twins table) (onWorld f : M α) (onWorld f) :=
  alike_onWorld fun w hw => wp_mono (hf w hw) fun _ _ hw' => ⟨hw'.1, fun _ _ h =>
    ⟨h.cur, h.object, h.opened, h.events.imp_right fun he => ⟨hw'.2 _ he.1, he.2⟩⟩⟩

theorem Steady.pure (a : α) : Steady table (pure a) := fun _ h => ⟨h, fun _ ho => ho⟩

theorem Steady.throw (e : Fault) : Steady table (throw e : StateT World _ α) :=
  fun _ _ => trivial

theorem Steady.bind {β : Type} {f : StateT World (Except Fault) α}
    {k : α → StateT World (Except Fault) β} (hf : Steady table f)
    (hk : ∀ a, Steady table (k a)) : Steady table (f >>= k) := by
  intro w h
  rw [wp_bind]
  refine wp_mono (hf w h) fun a w' h' => wp_mono (hk a w' h'.1) fun _ w'' h'' => ?_
  exact ⟨h''.1, fun o ho => h''.2 o (h'.2 o ho)⟩

theorem steady_next : Steady table next := by
  intro w h
  unfold next
  rw [wp_bind, wp_get]
  cases w.script with
  | nil => trivial
  | cons a script => exact ⟨h, fun _ ho => ho⟩

theorem steady_openStreams {opened : Object → Object}
    (hraw : ∀ obj, ¬ obj.Raw → ¬ (opened obj).Raw)
    (hlisten : opened (.tcp .listening) = .tcp .listening) :
    Steady table (openStreams o opened) := by
  refine .bind steady_next fun a => ?_
  cases a with
  | opened r =>
    cases r with
    | error e => exact .pure _
    | ok u =>
      refine .bind (fun w h => ⟨fun fd o' ho' => ?_, fun o' ho' => ?_⟩) fun _ => .pure _
      · show ¬ (update w.objects o (opened (w.objects o)) o').Raw
        by_cases heq : o' = o
        · subst heq
          rw [update_self]
          exact hraw _ (h fd _ ho')
        · rw [update_of_ne heq]
          exact h fd o' ho'
      · show update w.objects o (opened (w.objects o)) o' = _
        by_cases heq : o' = o
        · subst heq
          rw [update_self, ho', hlisten]
        · rw [update_of_ne heq]
          exact ho'
  | _ => exact .throw _

theorem not_raw_openRead (obj : Object) (h : ¬ obj.Raw) : ¬ (openRead obj).Raw := by
  unfold openRead
  split
  · exact id
  · exact h

theorem not_raw_openWrite (obj : Object) (h : ¬ obj.Raw) : ¬ (openWrite obj).Raw := by
  unfold openWrite
  split
  · exact id
  · exact h

theorem not_raw_createStreams (obj : Object) (h : ¬ obj.Raw) : ¬ (createStreams obj).Raw := by
  unfold createStreams
  split
  · exact id
  · exact h

theorem steady_get {k : World → StateT World (Except Fault) α}
    (hk : ∀ w, Steady table (k w)) : Steady table (get >>= k) := fun w h => hk w w h

theorem steady_getReadStream : Steady table (getReadStream o) := by
  refine steady_get fun w => ?_
  split
  · exact steady_openStreams not_raw_openRead rfl
  · exact .pure _
  · exact .pure _
  · exact .pure _

theorem steady_getWriteStream : Steady table (getWriteStream o) := by
  refine steady_get fun w => ?_
  split
  · exact steady_openStreams not_raw_openWrite rfl
  · exact .pure _
  · exact .pure _
  · exact .pure _

/-- Registrations that are alike in the states they are made in. -/
theorem twin_pollAdd (h : Twins table s t)
    (hreg : RegLike table s.world ⟨cur, o, e⟩ ⟨cur, o, e'⟩) :
    twin (fun a s' b t' => a = b ∧ Twins table s' t') (pollAdd cur o e) (pollAdd cur o e') s t := by
  refine twin_get ?_
  rw [h.fds.length_eq, h.regs.length_eq]
  split
  · exact ⟨rfl, h⟩
  · exact ⟨rfl, h.fds, h.count, h.elapsed, List.rel_append h.regs (.cons hreg .nil), h.world,
      h.calm⟩

theorem alike_pollAdd (ho : table fd = some o) (e : Events) (cur : Nat) :
    Alike (Twins table) (pollAdd cur o e) (pollAdd cur o e) :=
  fun _ _ h => twin_pollAdd h ⟨rfl, rfl, ⟨fd, ho⟩, .inl rfl⟩

theorem alike_pollAddBoth (ho : table fd = some o) (h : strip e = strip e') :
    Alike (Twins table) (pollAddBoth cur o e) (pollAddBoth cur o e') :=
  alike_andThen (.ite (has_congr strip_rdnorm h) (alike_pollAdd ho _ cur) (.pure _)) fun _ =>
    .ite (has_congr strip_wrnorm h) (alike_pollAdd ho _ cur) (.pure _)

theorem alike_udpPollRegister (ho : table fd = some o) (h : strip e = strip e')
    {state : UdpState} (hraw : ¬ (Object.udp state).Raw) :
    Alike (Twins table) (udpPollRegister cur o e state) (udpPollRegister cur o e' state) := by
  cases state with
  | unbound => exact (hraw trivial).elim
  | boundNostreams =>
    exact alike_andThen (alike_world (steady_openStreams not_raw_createStreams rfl)) fun _ =>
      alike_pollAddBoth ho h
  | boundStreaming => exact alike_pollAddBoth ho h
  | connected => exact alike_pollAddBoth ho h

theorem alike_streamsRegister (ho : table fd = some o) (h : strip e = strip e') :
    Alike (Twins table) (streamsRegister cur o e) (streamsRegister cur o e') := by
  unfold streamsRegister
  rw [h]
  refine .ite Iff.rfl (.pure _) (alike_andThen (.ite Iff.rfl ?_ (.pure _)) fun _ =>
    .ite Iff.rfl ?_ (.pure _))
  · exact alike_andThen (alike_world steady_getReadStream) fun _ => alike_pollAdd ho _ cur
  · exact alike_andThen (alike_world steady_getWriteStream) fun _ => alike_pollAdd ho _ cur

end

variable {table : Nat → Option Nat} {w : World}

end Preview2

/-! ## wasip3 -/

namespace Preview3

open WasiLibc.Stream (PollEvents)

/-- Two states of a call. -/
abbrev Twins (table : Nat → Option Nat) : State Reg World → State Reg World → Prop :=
  Like (Calm table) fun _ r r' => r = r'

variable {table : Nat → Option Nat}

variable {table : Nat → Option Nat} {w : World}

end Preview3

/-- A world in which every descriptor names the same object. -/
def single (obj : Preview3.Object) (script : List Preview3.Answer) : Preview3.World :=
  ⟨fun _ => obj, none, script⟩

end WasiLibc.Poll
